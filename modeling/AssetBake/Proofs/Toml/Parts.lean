import AssetBake.Proofs.Toml.Reading

/-!
# The parts of a document

A document falls into parts, each with one statement: the header of a table, a name with its value,
or nothing but blanks and a comment. A part ends where a line ends, and only a value goes over several
lines. Main statements: a document is what its statements make, one after the other, and the texts of
its parts, put together, are its text.
-/

namespace AssetBake.Toml

open Text

/-- What a part of a document says. -/
inductive Statement
  | blank
  /-- The header of a table. -/
  | header (name : DottedKey) (span : Span)
  /-- The header of an element of a sequence of tables. -/
  | element (name : DottedKey) (span : Span)
  | value (name : DottedKey) (item : Item)

def Statement.isHeader : Statement → Bool
  | .header .. => true
  | .element .. => true
  | _ => false

/-- What a statement adds to a draft. -/
def Statement.apply (draft : Draft) : Statement → Option Draft
  | .blank => some draft
  | .header name span => draft.header name span
  | .element name span => draft.elementHeader name span
  | .value name item => draft.assign name item

/-- A statement with the text that it is read from, up to the end of a line. -/
structure Part where
  statement : Statement
  text : List Char

/-- What the statements of parts add to a draft, one after the other. -/
def Draft.add (draft : Draft) (parts : List Part) : Option Draft :=
  parts.foldlM (fun draft part => part.statement.apply draft) draft

namespace Reader

def valueStatement : Reader Statement := do
  let key ← dottedKey
  expect '='
  skipWs
  let item ← value maxDepth
  endLine
  return .value key item

def headerStatement : Reader Statement := do
  let first ← here
  expect '['
  if ← accept '[' then
    let key ← dottedKey
    expect ']'
    expect ']'
    let span ← since first
    endLine
    return .element key span
  else
    let key ← dottedKey
    expect ']'
    let span ← since first
    endLine
    return .header key span

def statement? : Reader (Option Statement) := do
  skipWs
  match ← peek? with
  | none => return none
  | some c =>
    if c = '#' ∨ c = '\n' ∨ c = '\r' then
      endLine
      return some .blank
    else if c = '[' then return some (← headerStatement)
    else return some (← valueStatement)

/-- The parts of a text that is read up to here, no more than `fuel` of them; what is left behind the
last statement is a part of its own. -/
def parts (text : List Char) : Nat → Reader (List Part)
  | 0 => failure
  | fuel + 1 => do
    match ← statement? with
    | none => return [⟨.blank, text⟩]
    | some statement =>
      let rest ← get
      return ⟨statement, text.take (text.length - rest.length)⟩ :: (← parts rest fuel)

/-- The parts of a document; a byte order mark belongs to the first of them. -/
def documentParts : Reader (List Part) := do
  let text ← get
  discard (accept '\ufeff')
  let fuel := (← get).length + 1
  parts text fuel

end Reader

/-- The parts of the document of a text, if it is one. -/
def parts? (text : List Char) : Option (List Part) :=
  (Reader.documentParts.runOn (Utf8.byteSize text) text).map (·.1)

/-! ### Statements and lines -/

namespace Reader

theorem assignment_eq (draft : Draft) :
    assignment draft = (do liftM ((← valueStatement).apply draft)) := by
  simp only [assignment, valueStatement, bind_assoc, pure_bind, Statement.apply]

theorem header_eq (draft : Draft) : header draft = (do liftM ((← headerStatement).apply draft)) := by
  simp only [header, headerStatement, bind_assoc]
  congr
  funext first
  congr
  funext _
  congr
  funext double
  cases double
  · simp only [bind_assoc, pure_bind, Statement.apply, Bool.false_eq_true, if_false]
  · simp only [bind_assoc, pure_bind, Statement.apply, if_true]

theorem lines_succ (draft : Draft) (fuel : Nat) :
    lines draft (fuel + 1) = (do
      match ← statement? with
      | none => return draft
      | some statement => lines (← liftM (statement.apply draft)) fuel) := by
  simp only [lines, statement?, bind_assoc]
  congr
  funext _
  congr
  funext next
  cases next with
  | none => rfl
  | some c =>
    dsimp only
    split
    · simp only [bind_assoc, pure_bind, Statement.apply]
      rfl
    · split
      · simp only [header_eq, bind_assoc, pure_bind]
      · simp only [assignment_eq, bind_assoc, pure_bind]

theorem runOn_lines (draft : Draft) (fuel size : Nat) (text s : List Char) :
    (lines draft fuel).runOn size s =
      ((parts text fuel).runOn size s).bind fun read => (draft.add read.1).map (·, read.2) := by
  induction fuel generalizing draft text s with
  | zero => rfl
  | succ fuel ih =>
    rw [lines_succ, parts, runOn_bind, runOn_bind]
    rcases statement?.runOn size s with _ | ⟨_ | statement, rest⟩
    · rfl
    · rfl
    · simp only [Option.bind_some, runOn_bind, runOn_get, runOn_liftM, runOn_pure]
      cases happly : statement.apply draft with
      | none =>
        cases (parts rest fuel).runOn size rest with
        | none => rfl
        | some read => simp [Draft.add, happly]
      | some next =>
        simp only [Option.map_some, Option.bind_some, ih next rest]
        cases (parts rest fuel).runOn size rest with
        | none => rfl
        | some read => simp [Draft.add, happly]

/-- How the next statement is read, by the character that it begins with. -/
inductive Says (size : Nat) (rest : List Char) : List Char → Statement → Prop
  | blank {c : Char} {s : List Char} (hc : c = '#' ∨ c = '\n' ∨ c = '\r')
      (h : endLine.runOn size (c :: s) = some ((), rest)) : Says size rest (c :: s) .blank
  | header {s : List Char} {statement : Statement}
      (h : headerStatement.runOn size ('[' :: s) = some (statement, rest)) :
      Says size rest ('[' :: s) statement
  | value {c : Char} {s : List Char} {statement : Statement} (hc : ¬(c = '#' ∨ c = '\n' ∨ c = '\r'))
      (hbracket : c ≠ '[') (h : valueStatement.runOn size (c :: s) = some (statement, rest)) :
      Says size rest (c :: s) statement

variable {size : Nat} {text s rest : List Char} {statement : Statement}

theorem statement?_eq_some {next : Option Statement}
    (h : statement?.runOn size s = some (next, rest)) :
    match next with
    | none => s.dropWhile isWs = []
    | some statement => Says size rest (s.dropWhile isWs) statement := by
  rw [statement?, runOn_bind, runOn_skipWs, Option.bind_some, runOn_bind, runOn_peek?,
    Option.bind_some] at h
  cases hs : s.dropWhile isWs with
  | nil =>
    rw [hs] at h
    cases h
    rfl
  | cons c s =>
    simp only [hs, List.head?_cons] at h
    split at h
    · next hc =>
      obtain ⟨⟨_, mid⟩, hend, heq⟩ := Option.bind_eq_some_iff.1 h
      cases heq
      exact .blank hc hend
    · next hc =>
      split at h
      · next hbracket =>
        obtain ⟨⟨statement, mid⟩, hheader, heq⟩ := Option.bind_eq_some_iff.1 h
        cases heq
        subst hbracket
        exact .header hheader
      · next hbracket =>
        obtain ⟨⟨statement, mid⟩, hvalue, heq⟩ := Option.bind_eq_some_iff.1 h
        cases heq
        exact .value hc hbracket hvalue

/-! ### The ends of statements -/

/-- What a reader reads goes up to the end of a line, or of the document. -/
def ReadsLine {α : Type} (r : Reader α) : Prop :=
  ∀ size s a rest, r.runOn size s = some (a, rest) →
    ∃ front, s = front ++ rest ∧ (rest = [] ∨ front.getLast? = some '\n')

theorem ReadsLine.bind {α β : Type} {P : α → Prop} {r : Reader α} {f : α → Reader β}
    (hr : Reads P r) (hf : ∀ a, P a → ReadsLine (f a)) : ReadsLine (r >>= f) := by
  intro size s b rest h
  obtain ⟨⟨a, mid⟩, hra, hfa⟩ := Option.bind_eq_some_iff.1 h
  obtain ⟨⟨before, rfl⟩, ha⟩ := hr size s a mid hra
  obtain ⟨front, rfl, hend⟩ := hf a ha size mid b rest hfa
  refine ⟨before ++ front, by rw [List.append_assoc], hend.imp_right fun hlast => ?_⟩
  rw [List.getLast?_append, hlast, Option.some_or]

theorem ReadsLine.bind_pure {α β : Type} {r : Reader α} (hr : ReadsLine r) (f : α → β) :
    ReadsLine (r >>= fun a => pure (f a)) := by
  intro size s b rest h
  obtain ⟨⟨a, mid⟩, hra, heq⟩ := Option.bind_eq_some_iff.1 h
  cases heq
  exact hr size s a rest hra

theorem readsLine_endLine : ReadsLine endLine := by
  have hcomment (s : List Char) : afterComment s <:+ s := by
    rw [afterComment.eq_def]
    split
    · exact (List.dropWhile_suffix _).trans (List.suffix_cons ..)
    · exact List.suffix_refl _
  refine .bind reads_skipWs fun _ _ => .bind (.modify hcomment) fun _ _ size s a rest h => ?_
  rw [runOn_bind, runOn_get, Option.bind_some] at h
  dsimp only at h
  split at h
  · cases h
    exact ⟨[], rfl, .inl rfl⟩
  · cases h
    exact ⟨['\n'], rfl, .inr rfl⟩
  · cases h
    exact ⟨['\x0d', '\n'], rfl, .inr rfl⟩
  · cases h

theorem readsLine_valueStatement : ReadsLine valueStatement :=
  .bind reads_dottedKey fun key _ => .bind (reads_expect '=') fun _ _ => .bind reads_skipWs fun _ _ =>
    .bind (reads_value maxDepth) fun item _ => readsLine_endLine.bind_pure fun _ =>
    Statement.value key item

theorem readsLine_headerStatement : ReadsLine headerStatement := by
  refine .bind reads_here fun first _ => .bind (reads_expect '[') fun _ _ =>
    .bind (reads_accept '[') fun double _ => ?_
  split
  · exact .bind reads_dottedKey fun key _ => .bind (reads_expect ']') fun _ _ =>
      .bind (reads_expect ']') fun _ _ => .bind (reads_since first) fun span _ =>
      readsLine_endLine.bind_pure fun _ => Statement.element key span
  · exact .bind reads_dottedKey fun key _ => .bind (reads_expect ']') fun _ _ =>
      .bind (reads_since first) fun span _ => 
      readsLine_endLine.bind_pure fun _ => Statement.header key span

/-- A statement is read up to the end of a line, and is not empty. -/
theorem exists_front (h : statement?.runOn size s = some (some statement, rest)) :
    ∃ front, front ≠ [] ∧ s = front ++ rest ∧ (rest = [] ∨ front.getLast? = some '\n') := by
  have hs := List.takeWhile_append_dropWhile (p := isWs) (l := s)
  have hsays : Says size rest (s.dropWhile isWs) statement := statement?_eq_some h
  have hreads : ∃ front, s.dropWhile isWs = front ++ rest ∧ (rest = [] ∨ front.getLast? = some '\n') := by
    generalize s.dropWhile isWs = body at hsays
    cases hsays with
    | blank hc hread => exact readsLine_endLine _ _ _ _ hread
    | header hread => exact readsLine_headerStatement _ _ _ _ hread
    | value _ _ hread => exact readsLine_valueStatement _ _ _ _ hread
  obtain ⟨front, hfront, hend⟩ := hreads
  refine ⟨s.takeWhile isWs ++ front, ?_, by rw [List.append_assoc, ← hfront, hs], ?_⟩
  · rintro hnil
    obtain ⟨-, rfl⟩ := List.append_eq_nil_iff.1 hnil
    rcases hend with rfl | hlast
    · rw [hfront] at hsays
      cases hsays
    · cases hlast
  · refine hend.imp_right fun hlast => ?_
    rw [List.getLast?_append, hlast, Option.some_or]

/-! ### Parts -/

/-- The parts of a text whose first statement is read from `s` on: to each statement belongs the text
up to where it ends. -/
inductive Parted (size : Nat) : List Char → List Char → List Part → Prop
  | last {text s rest : List Char} (h : statement?.runOn size s = some (none, rest)) :
      Parted size text s [⟨.blank, text⟩]
  | cons {before s front rest : List Char} {statement : Statement} {more : List Part}
      (h : statement?.runOn size s = some (some statement, rest)) (hs : s = front ++ rest)
      (hne : front ≠ []) (hend : rest = [] ∨ front.getLast? = some '\n')
      (hmore : Parted size rest rest more) :
      Parted size (before ++ s) s (⟨statement, before ++ front⟩ :: more)

theorem parted_of_parts {size fuel : Nat} (before : List Char) {s rest : List Char} {ps : List Part}
    (h : (parts (before ++ s) fuel).runOn size s = some (ps, rest)) :
    Parted size (before ++ s) s ps := by
  induction fuel generalizing before s ps with
  | zero => cases h
  | succ fuel ih =>
    rw [parts, runOn_bind] at h
    obtain ⟨⟨next, mid⟩, hnext, h⟩ := Option.bind_eq_some_iff.1 h
    cases next with
    | none =>
      cases h
      exact .last hnext
    | some statement =>
      rw [runOn_bind, runOn_get, Option.bind_some, runOn_bind] at h
      obtain ⟨⟨more, left⟩, hmore, heq⟩ := Option.bind_eq_some_iff.1 h
      cases heq
      obtain ⟨front, hne, rfl, hend⟩ := exists_front hnext
      have htake : (before ++ (front ++ mid)).take ((before ++ (front ++ mid)).length - mid.length) =
          before ++ front := by
        rw [← List.append_assoc]
        exact List.take_left' (by simp only [List.length_append]; omega)
      dsimp only
      rw [htake]
      exact .cons hnext rfl hne hend (ih [] hmore)

/-- The texts of the parts, put together, are the text. -/
theorem Parted.flatMap_text {size : Nat} {text s : List Char} {ps : List Part}
    (h : Parted size text s ps) : ps.flatMap (·.text) = text := by
  induction h with
  | last => simp
  | cons h hs hne hend hmore ih => simp [ih, hs]

theorem exists_behind_mark (size : Nat) (text : List Char) :
    ∃ s, (text = s ∨ text = '\ufeff' :: s) ∧
      (discard (accept '\ufeff')).runOn size text = some ((), s) := by
  have hdiscard (r : Reader Bool) : (discard r).runOn size text =
      (r.runOn size text).bind fun read => some ((), read.2) := rfl
  rw [hdiscard, runOn_accept]
  cases hafter : afterChar? '\ufeff' text with
  | none => exact ⟨text, .inl rfl, rfl⟩
  | some rest => exact ⟨rest, .inr (afterChar?_eq_some.1 hafter), rfl⟩

end Reader

open Toml.Reader

/-- A document is what its statements make, one after the other. -/
theorem parse?_eq (text : List Char) :
    parse? text = (parts? text).bind fun ps => (Draft.empty.add ps).bind Draft.close := by
  obtain ⟨s, -, hmark⟩ := exists_behind_mark (Utf8.byteSize text) text
  change ((document.runOn (Utf8.byteSize text) text).map (·.1)) = _
  rw [parts?, document, documentParts]
  simp only [runOn_bind, runOn_get, Option.bind_some, hmark, runOn_lines _ _ _ text]
  cases (parts text (s.length + 1)).runOn (Utf8.byteSize text) s with
  | none => rfl
  | some read =>
    simp only [Option.bind_some, Option.map_some]
    cases Draft.empty.add read.1 with
    | none => rfl
    | some draft =>
      simp only [Option.map_some, Option.bind_some, runOn_liftM]
      cases draft.close <;> rfl

theorem exists_parts {text : List Char} {document : Table} (h : parse? text = some document) :
    ∃ ps last, parts? text = some ps ∧ Draft.empty.add ps = some last ∧
      last.close = some document := by
  rw [parse?_eq] at h
  obtain ⟨ps, hps, hrest⟩ := Option.bind_eq_some_iff.1 h
  obtain ⟨last, hadd, hclose⟩ := Option.bind_eq_some_iff.1 hrest
  exact ⟨ps, last, hps, hadd, hclose⟩

theorem parted_of_parts? {text : List Char} {ps : List Part} (h : parts? text = some ps) :
    ∃ s, (text = s ∨ text = '\ufeff' :: s) ∧ Parted (Utf8.byteSize text) text s ps := by
  obtain ⟨s, htext, hmark⟩ := exists_behind_mark (Utf8.byteSize text) text
  rw [parts?, documentParts] at h
  simp only [runOn_bind, runOn_get, Option.bind_some, hmark] at h
  obtain ⟨⟨ps, rest⟩, hparts, heq⟩ := Option.map_eq_some_iff.1 h
  cases heq
  refine ⟨s, htext, ?_⟩
  rcases htext with rfl | rfl
  · exact parted_of_parts [] hparts
  · exact parted_of_parts ['\ufeff'] hparts

/-! ### What statements keep -/

section

variable {draft next : Draft} {statement : Statement} {key : Key} {names : List (List Char)}

theorem kind_of_apply (hkind : draft.current.kind = .headed) (h : statement.apply draft = some next) :
    next.current.kind = .headed := by
  cases statement with
  | blank =>
    cases h
    exact hkind
  | header name span =>
    obtain ⟨t, -, -, -, hnext⟩ := Draft.header_eq_some h
    exact hnext
  | element name span =>
    obtain ⟨t, -, -, -, hnext⟩ := Draft.elementHeader_eq_some h
    exact hnext
  | value name item =>
    obtain ⟨-, -, hkeeps⟩ := Draft.assign_eq_some h
    exact hkeeps.kind.trans hkind

/-- Only a header changes which table is being filled. -/
theorem place_of_apply (hheader : statement.isHeader = false) (h : statement.apply draft = some next) :
    next.place = draft.place := by
  cases statement with
  | blank =>
    cases h
    rfl
  | header name span => cases hheader
  | element name span => cases hheader
  | value name item => exact (Draft.assign_eq_some h).2.1

/-- No statement takes an entry away that a draft holds. -/
theorem Draft.Holds.apply (hd : draft.Holds key names) (hkind : draft.current.kind = .headed)
    (h : statement.apply draft = some next) : next.Holds key names := by
  cases statement with
  | blank =>
    cases h
    exact hd
  | header name span =>
    obtain ⟨t, hclose, hkeeps, hplace, -⟩ := Draft.header_eq_some h
    exact .root (by simp [hplace]) (hkeeps.holds (hd.close hkind hclose))
  | element name span =>
    obtain ⟨t, hclose, hkeeps, hplace, -⟩ := Draft.elementHeader_eq_some h
    exact .root (by simp [hplace]) (hkeeps.holds (hd.close hkind hclose))
  | value name item => exact hd.assign h

theorem Draft.add_cons (draft : Draft) (part : Part) (ps : List Part) :
    draft.add (part :: ps) = (part.statement.apply draft).bind fun next => next.add ps :=
  rfl

/-- What a draft holds is in the document that it becomes. -/
theorem Draft.Holds.close_add {ps : List Part} {last : Draft} {document : Table}
    (hd : draft.Holds key names) (hkind : draft.current.kind = .headed)
    (hadd : draft.add ps = some last) (hclose : last.close = some document) :
    document.Holds key names := by
  induction ps generalizing draft with
  | nil =>
    cases hadd
    exact hd.close hkind hclose
  | cons part ps ih =>
    rw [Draft.add_cons] at hadd
    obtain ⟨next, hnext, hrest⟩ := Option.bind_eq_some_iff.1 hadd
    exact ih (hd.apply hkind hnext) (kind_of_apply hkind hnext) hrest

end

end AssetBake.Toml
