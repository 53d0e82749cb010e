import AssetBake.Proofs.Toml.Entries
import AssetBake.Toml.Parser

/-!
# What readers leave

Every reader takes characters from the front of a text and leaves the others. Main statements:
`Reads` goes through a reader step by step, and each reader of the grammar is one of that kind.
-/

namespace AssetBake.Toml

open Text

variable {α β : Type}

/-- What a reading leaves, if it succeeds, is an end of the text. -/
def Leaves (read : Option (α × List Char)) (s : List Char) : Prop :=
  ∀ a rest, read = some (a, rest) → rest <:+ s

namespace Leaves

variable {s t rest : List Char} {a : α}

theorem none : Leaves (none : Option (α × List Char)) s := nofun

theorem some (h : rest <:+ s) : Leaves (some (a, rest)) s := by
  rintro _ _ ⟨⟩
  exact h

theorem mono {read : Option (α × List Char)} (h : Leaves read s) (hst : s <:+ t) : Leaves read t :=
  fun a rest heq => (h a rest heq).trans hst

theorem cons {read : Option (α × List Char)} (c : Char) (h : Leaves read s) : Leaves read (c :: s) :=
  h.mono (List.suffix_cons c s)

theorem more {read : Option (List Char × List Char)} (c : Char) (h : Leaves read s) :
    Leaves (more c read) s := by
  intro content rest heq
  obtain ⟨⟨front, _⟩, hread, hcons⟩ := Option.map_eq_some_iff.1 heq
  cases hcons
  exact h front rest hread

end Leaves

/-! ### Strings -/

theorem leaves_basicString (s : List Char) : Leaves (basicString s) s := by
  fun_induction basicString s with
  | case1 => exact .none
  | case2 rest => exact .some (List.suffix_cons ..)
  | case3 a b c d rest u hu ih => exact (ih.more u).mono ⟨['\\', 'u', a, b, c, d], rfl⟩
  | case4 => exact .none
  | case5 a b c d e f g h rest u hu ih =>
    exact (ih.more u).mono ⟨['\\', 'U', a, b, c, d, e, f, g, h], rfl⟩
  | case6 => exact .none
  | case7 c rest _ _ u hu ih => exact ((ih.more u).cons c).cons '\\'
  | case8 => exact .none
  | case9 c rest _ _ _ _ hc ih => exact (ih.more c).cons c
  | case10 => exact .none

theorem leaves_literalString (s : List Char) : Leaves (literalString s) s := by
  fun_induction literalString s with
  | case1 => exact .none
  | case2 rest => exact .some (List.suffix_cons ..)
  | case3 c rest _ hc ih => exact (ih.more c).cons c
  | case4 => exact .none

theorem leaves_longEnd? (mark : Char) (s : List Char) : Leaves (longEnd? mark s) s := by
  rw [longEnd?]
  split
  · exact .some (List.drop_suffix ..)
  · exact .none

theorem leaves_longText {rest : List Char}
    (ih : ∀ mode t, t.length ≤ rest.length → Leaves (longBasicString mode t) t) (c : Char) :
    Leaves (longBasicString.longText c rest) (c :: rest) := by
  rw [longBasicString.longText.eq_def]
  split
  · next a b d e rest =>
    split
    · exact ((ih .text rest (by simp; omega)).more _).mono ⟨['\\', 'u', a, b, d, e], rfl⟩
    · exact .none
  · next a b d e f g h i rest =>
    split
    · exact ((ih .text rest (by simp; omega)).more _).mono
        ⟨['\\', 'U', a, b, d, e, f, g, h, i], rfl⟩
    · exact .none
  · next d rest _ _ =>
    split
    · exact (((ih .text rest (by simp)).more _).cons d).cons '\\'
    · exact (ih .folding (d :: rest) (Nat.le_refl _)).cons '\\'
  · next rest => exact (((ih .text rest (by simp)).more _).cons '\n').cons '\x0d'
  · split
    · next done hdone =>
      split at hdone
      · exact hdone ▸ leaves_longEnd? '"' (c :: rest)
      · cases hdone
    · split
      · exact ((ih .text rest (Nat.le_refl _)).more c).cons c
      · exact .none

theorem leaves_longBasicString (mode : LongMode) (s : List Char) :
    Leaves (longBasicString mode s) s := by
  -- An escape takes several characters at once and may lead into another mode, so the induction is on
  -- the length.
  induction hn : s.length using Nat.strongRecOn generalizing mode s with
  | ind n ih =>
    cases s with
    | nil =>
      rw [longBasicString]
      exact .none
    | cons c rest =>
      have hrest : ∀ mode t, t.length ≤ rest.length → Leaves (longBasicString mode t) t :=
        fun mode t ht => ih t.length (by rw [← hn, List.length_cons]; omega) mode t rfl
      have hkeep (mode : LongMode) : Leaves (longBasicString mode rest) (c :: rest) :=
        (hrest mode rest (Nat.le_refl _)).cons c
      have htext := leaves_longText hrest c
      cases mode with
      | text => rwa [longBasicString]
      | folding =>
        rw [longBasicString]
        split
        · exact hkeep .folding
        · split
          · exact hkeep .folded
          · split
            · exact hkeep .folding
            · exact .none
      | folded =>
        rw [longBasicString]
        split
        · exact hkeep .folded
        · split
          · exact hkeep .folded
          · exact htext

theorem leaves_longLiteralString (s : List Char) : Leaves (longLiteralString s) s := by
  fun_induction longLiteralString s with
  | case1 => exact .none
  | case2 rest ih => exact ((ih.more '\n').cons '\n').cons '\x0d'
  | case3 c rest _ done hdone =>
    split at hdone
    · exact hdone ▸ leaves_longEnd? '\'' (c :: rest)
    · cases hdone
  | case4 c rest _ _ _ ih => exact (ih.more c).cons c
  | case5 => exact .none

theorem dropLineEnd_suffix (s : List Char) : dropLineEnd s <:+ s := by
  rw [dropLineEnd.eq_def]
  split
  · exact List.suffix_cons ..
  · exact ⟨['\x0d', '\n'], rfl⟩
  · exact List.suffix_refl _

theorem leaves_readString (s : List Char) : Leaves (readString s) s := by
  rw [readString.eq_def]
  split
  · next rest =>
    exact (leaves_longBasicString .text _).mono
      ((dropLineEnd_suffix rest).trans ⟨['"', '"', '"'], rfl⟩)
  · next rest _ => exact (leaves_basicString rest).cons '"'
  · next rest =>
    exact (leaves_longLiteralString _).mono
      ((dropLineEnd_suffix rest).trans ⟨['\'', '\'', '\''], rfl⟩)
  · next rest _ => exact (leaves_literalString rest).cons '\''
  · exact .none

theorem afterChar?_eq_some {c : Char} {s rest : List Char} :
    afterChar? c s = some rest ↔ s = c :: rest := by
  cases s with
  | nil => exact iff_of_false nofun nofun
  | cons d s =>
    rw [afterChar?, List.cons.injEq]
    split
    · next h => simp [h]
    · next h => simp [Ne.symm h]

theorem takeBare_suffix (s : List Char) : (takeBare s).2 <:+ s := by
  have hdrop := List.dropWhile_suffix isBareChar (l := s)
  rw [takeBare]
  split
  · next c rest heq =>
    rw [heq] at hdrop
    split
    · exact (List.dropWhile_suffix _).trans ((List.suffix_cons ' ' _).trans hdrop)
    · exact hdrop
  · exact hdrop

/-! ### Readers -/

namespace Reader

variable {size : Nat} {s rest : List Char} {a : α}

/-- What a reader gives in a document of a size, and what it leaves of the characters. -/
def runOn (r : Reader α) (size : Nat) (s : List Char) : Option (α × List Char) :=
  (r.run size).run s

theorem runOn_bind (r : Reader α) (f : α → Reader β) (size : Nat) (s : List Char) :
    (r >>= f).runOn size s = (r.runOn size s).bind fun read => (f read.1).runOn size read.2 :=
  rfl

theorem runOn_pure (a : α) (size : Nat) (s : List Char) :
    (pure a : Reader α).runOn size s = some (a, s) :=
  rfl

theorem runOn_get (size : Nat) (s : List Char) :
    (get : Reader (List Char)).runOn size s = some (s, s) :=
  rfl

theorem runOn_modify (f : List Char → List Char) (size : Nat) (s : List Char) :
    (modify f : Reader Unit).runOn size s = some ((), f s) :=
  rfl

theorem runOn_liftM (read : Option α) (size : Nat) (s : List Char) :
    (liftM read : Reader α).runOn size s = read.map (·, s) := by
  cases read <;> rfl

theorem runOn_here (size : Nat) (s : List Char) :
    here.runOn size s = some (size - Utf8.byteSize s, s) :=
  rfl

theorem runOn_peek? (size : Nat) (s : List Char) : peek?.runOn size s = some (s.head?, s) :=
  rfl

theorem runOn_skipWs (size : Nat) (s : List Char) :
    skipWs.runOn size s = some ((), s.dropWhile isWs) :=
  rfl

theorem runOn_readWith (f : List Char → Option (α × List Char)) (size : Nat) (s : List Char) :
    (readWith f).runOn size s = f s := by
  rw [readWith, runOn_bind, runOn_get, Option.bind_some]
  cases f s <;> rfl

theorem runOn_expect (c : Char) (size : Nat) (s : List Char) :
    (expect c).runOn size s = (afterChar? c s).map (Prod.mk ()) := by
  cases s with
  | nil => rfl
  | cons d rest =>
    simp only [expect, runOn_bind, runOn_get, Option.bind_some, afterChar?]
    split <;> rfl

theorem runOn_accept (c : Char) (size : Nat) (s : List Char) :
    (accept c).runOn size s =
      match afterChar? c s with
      | some rest => some (true, rest)
      | none => some (false, s) := by
  cases s with
  | nil => rfl
  | cons d rest =>
    simp only [accept, runOn_bind, runOn_get, Option.bind_some, afterChar?]
    split <;> rfl

/-- What a reader leaves is an end of what it is given, and what it reads has a property. -/
def Reads (P : α → Prop) (r : Reader α) : Prop :=
  ∀ size s a rest, r.runOn size s = some (a, rest) → rest <:+ s ∧ P a

namespace Reads

variable {P : α → Prop} {Q : β → Prop} {r : Reader α} {f : α → Reader β}

theorem bind (hr : Reads P r) (hf : ∀ a, P a → Reads Q (f a)) : Reads Q (r >>= f) := by
  intro size s b rest hread
  rw [runOn_bind] at hread
  obtain ⟨⟨a, mid⟩, hra, hfa⟩ := Option.bind_eq_some_iff.1 hread
  obtain ⟨hmid, ha⟩ := hr size s a mid hra
  obtain ⟨hrest, hb⟩ := hf a ha size mid b rest hfa
  exact ⟨hrest.trans hmid, hb⟩

theorem pure (ha : P a) : Reads P (pure a : Reader α) := by
  rintro size s _ _ ⟨⟩
  exact ⟨List.suffix_refl _, ha⟩

theorem failure : Reads P (failure : Reader α) := by
  rintro size s _ _ ⟨⟩

theorem get : Reads (fun _ => True) (get : Reader (List Char)) := by
  rintro size s _ _ ⟨⟩
  exact ⟨List.suffix_refl _, trivial⟩

theorem modify {f : List Char → List Char} (hf : ∀ s, f s <:+ s) :
    Reads (fun _ => True) (modify f : Reader Unit) := by
  rintro size s _ _ ⟨⟩
  exact ⟨hf s, trivial⟩

theorem readWith {f : List Char → Option (α × List Char)} (hf : ∀ s, Leaves (f s) s) :
    Reads (fun _ => True) (readWith f) := by
  intro size s a rest hread
  rw [runOn_readWith] at hread
  exact ⟨hf s a rest hread, trivial⟩

end Reads

theorem reads_here : Reads (fun _ => True) here := by
  rintro size s _ _ ⟨⟩
  exact ⟨List.suffix_refl _, trivial⟩

theorem reads_since (first : Nat) : Reads (fun _ => True) (since first) := by
  rintro size s _ _ ⟨⟩
  exact ⟨List.suffix_refl _, trivial⟩

theorem reads_peek? : Reads (fun _ => True) peek? := by
  rintro size s _ _ ⟨⟩
  exact ⟨List.suffix_refl _, trivial⟩

theorem reads_expect (c : Char) : Reads (fun _ => True) (expect c) := by
  intro size s a rest hread
  rw [runOn_expect] at hread
  obtain ⟨_, hafter, hmk⟩ := Option.map_eq_some_iff.1 hread
  cases hmk
  rw [afterChar?_eq_some.1 hafter]
  exact ⟨List.suffix_cons .., trivial⟩

theorem reads_accept (c : Char) : Reads (fun _ => True) (accept c) := by
  intro size s a rest hread
  rw [runOn_accept] at hread
  split at hread
  · next after hafter =>
    cases hread
    rw [afterChar?_eq_some.1 hafter]
    exact ⟨List.suffix_cons .., trivial⟩
  · cases hread
    exact ⟨List.suffix_refl s, trivial⟩

theorem reads_skipWs : Reads (fun _ => True) skipWs :=
  .modify fun _ => List.dropWhile_suffix _

theorem afterFiller_suffix (inComment : Bool) (s : List Char) : afterFiller inComment s <:+ s := by
  fun_induction afterFiller inComment s with
  | case1 => exact List.suffix_refl _
  | case2 inComment rest ih => exact ih.trans (List.suffix_cons ..)
  | case3 inComment c rest _ _ ih => exact ih.trans (List.suffix_cons ..)
  | case4 c rest _ _ _ ih => exact ih.trans (List.suffix_cons ..)
  | case5 => exact List.suffix_refl _
  | case6 inComment c rest _ _ _ _ ih => exact ih.trans (List.suffix_cons ..)
  | case7 inComment rest _ _ _ _ ih => exact ih.trans (List.suffix_cons ..)
  | case8 => exact List.suffix_refl _

/-! ### Keys -/

theorem reads_simpleKey : Reads (fun _ => True) simpleKey := by
  refine reads_here.bind fun first _ => .bind (.readWith fun s => ?_) fun text _ =>
    (reads_since first).bind fun span _ => .pure trivial
  split
  · next rest => exact (leaves_basicString rest).cons '"'
  · next rest => exact (leaves_literalString rest).cons '\''
  · dsimp only
    split
    · exact .none
    · exact .some (List.dropWhile_suffix _)

theorem reads_keyParts (fuel : Nat) : Reads (fun _ => True) (keyParts fuel) := by
  induction fuel with
  | zero => exact .failure
  | succ fuel ih =>
    refine reads_skipWs.bind fun _ _ => reads_simpleKey.bind fun key _ => reads_skipWs.bind fun _ _ =>
      (reads_accept '.').bind fun dot _ => ?_
    split
    · exact ih.bind fun keys _ => .pure trivial
    · exact .pure trivial

theorem reads_dottedKey : Reads (fun _ => True) dottedKey := by
  refine (reads_keyParts maxKeyLength).bind fun keys _ => ?_
  split
  · exact .pure trivial
  · exact .failure

/-! ### Values -/

section

variable {item : Reader Item} {P : Item → Prop}

theorem reads_arrayItems (hitem : Reads P item) (fuel : Nat) :
    Reads (fun _ => True) (arrayItems item fuel) := by
  have hfiller : Reads (fun _ => True) (modify (afterFiller false)) :=
    .modify (afterFiller_suffix false)
  induction fuel with
  | zero => exact .failure
  | succ fuel ih =>
    refine hfiller.bind fun _ _ => (reads_accept ']').bind fun close _ => ?_
    split
    · exact .pure trivial
    · refine hitem.bind fun first _ => hfiller.bind fun _ _ => (reads_accept ',').bind fun comma _ => ?_
      split
      · exact ih.bind fun items _ => .pure trivial
      · exact (reads_expect ']').bind fun _ _ => .pure trivial

theorem reads_inlineEntries (hitem : Reads P item) (fuel : Nat) :
    Reads (fun _ => True) (inlineEntries item fuel) := by
  induction fuel with
  | zero => exact .failure
  | succ fuel ih =>
    refine reads_dottedKey.bind fun key _ => (reads_expect '=').bind fun _ _ =>
      reads_skipWs.bind fun _ _ => hitem.bind fun value _ => reads_skipWs.bind fun _ _ =>
      (reads_accept ',').bind fun comma _ => ?_
    split
    · exact ih.bind fun entries _ => .pure trivial
    · exact (reads_expect '\x7d').bind fun _ _ => .pure trivial

end

theorem settled_bareItem? {span : Span} {s : List Char} {item : Item}
    (h : bareItem? span s = some item) : item.Settled := by
  rw [bareItem?] at h
  split at h
  · cases h
    exact nofun
  · split at h
    · cases h
      exact nofun
    · split at h
      · cases h
        exact nofun
      · split at h
        · cases h
          exact nofun
        · obtain ⟨x, -, rfl⟩ := Option.map_eq_some_iff.1 h
          exact nofun

theorem reads_scalar : Reads Item.Settled scalar := by
  have hstring (first : Nat) : Reads Item.Settled (do
      let s ← readWith readString
      return .string (← since first) s) :=
    .bind (.readWith leaves_readString) fun s _ => (reads_since first).bind fun span _ =>
      .pure nofun
  refine reads_here.bind fun first _ => reads_peek?.bind fun next _ => ?_
  split
  · exact hstring first
  · exact hstring first
  · refine .bind (.readWith fun s => .some (takeBare_suffix s)) fun s _ =>
      (reads_since first).bind fun span _ => ?_
    split
    · next item hitem => exact .pure (settled_bareItem? hitem)
    · exact .failure

/-- No value is a table that a header takes up again. -/
theorem reads_value (depth : Nat) : Reads Item.Settled (value depth) := by
  induction depth with
  | zero => exact reads_scalar
  | succ depth ih =>
    rw [value]
    refine reads_here.bind fun first _ => Reads.get.bind fun s _ => reads_peek?.bind fun next _ => ?_
    split
    · exact (reads_expect '[').bind fun _ _ => (reads_arrayItems ih _).bind fun items _ =>
        (reads_since first).bind fun span _ => .pure nofun
    · refine (reads_expect _).bind fun _ _ => reads_skipWs.bind fun _ _ =>
        (reads_accept _).bind fun close _ => ?_
      dsimp only
      split
      case' isTrue => refine (Reads.pure (P := fun _ => True) trivial).bind fun pairs _ => ?_
      case' isFalse => refine (reads_inlineEntries ih _).bind fun pairs _ => ?_
      all_goals
        refine (reads_since first).bind fun span _ => ?_
        split
        · next item hitem => exact .pure (settled_inlineTable? hitem)
        · exact .failure
    · exact reads_scalar

end Reader

end AssetBake.Toml
