import AssetBake.Report.Annotation
import AssetBake.Proofs.Literal.Reader
import AssetBake.Proofs.Text.Pieces

/-!
# Reading annotations

A reader of workflow commands that knows nothing of how they are written. It undoes one kind of escape
after the other, the percent sign last, so that a text that looks like an escape comes back as it was.
An annotation is one line, and the reader gets back what it was made of.
-/

namespace AssetBake.Report

open Text Reader

/-! ### Replacing -/

/-- The text with `new` in place of every occurrence of `old`, from the left. -/
def replaceAll (old new : List Char) : List Char → List Char
  | [] => []
  | c :: rest =>
    if old ≠ [] ∧ old <+: c :: rest then new ++ replaceAll old new ((c :: rest).drop old.length)
    else c :: replaceAll old new rest
termination_by s => s.length
decreasing_by
  · next h =>
    have := List.length_pos_iff.2 h.1
    simp only [List.length_drop, List.length_cons]
    omega
  · simp

theorem replaceAll_append {old : List Char} (hne : old ≠ []) (new rest : List Char) :
    replaceAll old new (old ++ rest) = new ++ replaceAll old new rest := by
  obtain ⟨c, more, rfl⟩ := List.exists_cons_of_ne_nil hne
  rw [List.cons_append, replaceAll, if_pos ⟨hne, by simp⟩, ← List.cons_append, List.drop_left]

theorem replaceAll_cons {old rest : List Char} {c : Char} (h : ¬old <+: c :: rest)
    (new : List Char) : replaceAll old new (c :: rest) = c :: replaceAll old new rest := by
  rw [replaceAll, if_neg fun hmatch => h hmatch.2]

/-- One character is replaced wherever it stands. -/
theorem replaceAll_singleton (c : Char) (new s : List Char) :
    replaceAll [c] new s = s.flatMap fun d => if d = c then new else [d] := by
  induction s with
  | nil => rw [replaceAll, List.flatMap_nil]
  | cons d s ih =>
    rw [List.flatMap_cons]
    by_cases hd : d = c
    · subst hd
      rw [if_pos rfl, ← ih]
      exact replaceAll_append (List.cons_ne_nil d []) new s
    · have hother : ¬[c] <+: d :: s := by simpa using Ne.symm hd
      rw [replaceAll_cons hother, if_neg hd, ih, List.singleton_append]

/-! ### Escapes -/

/-- The characters that an annotation may have to escape. -/
def reserved : List Char :=
  ['\r', '\n', ':', ',', '%']

/-- The escape of a reserved character, without its percent sign. -/
def codeOf : Char → Char × Char
  | '\r' => ('0', 'D')
  | '\n' => ('0', 'A')
  | ':' => ('3', 'A')
  | ',' => ('2', 'C')
  | _ => ('2', '5')

def escapeOf (c : Char) : List Char :=
  ['%', (codeOf c).1, (codeOf c).2]

theorem escapeOf_append (c : Char) (rest : List Char) :
    escapeOf c ++ rest = '%' :: (codeOf c).1 :: (codeOf c).2 :: rest := rfl

def escapeThese (these s : List Char) : List Char :=
  s.flatMap fun c => if c ∈ these then escapeOf c else [c]

@[simp] theorem escapeThese_nil (these : List Char) : escapeThese these [] = [] := rfl

@[simp] theorem escapeThese_cons (these : List Char) (c : Char) (s : List Char) :
    escapeThese these (c :: s) = (if c ∈ these then escapeOf c else [c]) ++ escapeThese these s := rfl

theorem escapeThese_of_nothing (s : List Char) : escapeThese [] s = s := by
  induction s with
  | nil => rfl
  | cons c s ih => simp [ih]

theorem percent_ne_codeOf {c : Char} (h : c ∈ reserved) :
    (codeOf c).1 ≠ '%' ∧ (codeOf c).2 ≠ '%' := by
  have hall : reserved.all fun c => (codeOf c).1 ≠ '%' ∧ (codeOf c).2 ≠ '%' := by decide
  simpa using List.all_eq_true.1 hall c h

theorem codeOf_injective {c d : Char} (hc : c ∈ reserved) (hd : d ∈ reserved)
    (h : codeOf c = codeOf d) : c = d := by
  have hall : reserved.all fun c => reserved.all fun d => codeOf c ≠ codeOf d ∨ c = d := by decide
  have hpair := List.all_eq_true.1 (List.all_eq_true.1 hall c hc) d hd
  exact (of_decide_eq_true hpair).resolve_left (not_not_intro h)

/-- What an escape stands for is put in its place, and no other escape is touched. -/
theorem replaceAll_escapeThese {c : Char} {these : List Char} (hc : c ∈ reserved)
    (hthese : these ⊆ reserved) (hnew : c ∉ these) (hpercent : '%' ∈ c :: these) (s : List Char) :
    replaceAll (escapeOf c) [c] (escapeThese (c :: these) s) = escapeThese these s := by
  have hpass : ∀ {a : Char}, a ≠ '%' → ∀ rest, replaceAll (escapeOf c) [c] (a :: rest) =
      a :: replaceAll (escapeOf c) [c] rest := by
    intro a ha rest
    apply replaceAll_cons
    simp [escapeOf, List.cons_prefix_cons, ha.symm]
  induction s with
  | nil => rw [escapeThese_nil, escapeThese_nil, replaceAll]
  | cons a s ih =>
    rw [escapeThese_cons, escapeThese_cons]
    by_cases hsame : a = c
    · subst hsame
      rw [if_pos List.mem_cons_self, if_neg hnew, replaceAll_append (by simp [escapeOf]), ih]
    · by_cases ha : a ∈ these
      · -- Another escape begins with the same percent sign but goes on differently.
        have hother : ¬escapeOf c <+: escapeOf a ++ escapeThese (c :: these) s := by
          intro hprefix
          apply hsame
          apply codeOf_injective (hthese ha) hc
          simp only [escapeOf, List.cons_append, List.cons_prefix_cons] at hprefix
          exact (Prod.ext hprefix.2.1 hprefix.2.2.1).symm
        obtain ⟨hfirst, hsecond⟩ := percent_ne_codeOf (hthese ha)
        rw [if_pos (List.mem_cons_of_mem c ha), if_pos ha]
        rw [escapeOf_append] at hother ⊢
        rw [replaceAll_cons hother, hpass hfirst, hpass hsecond, ih, escapeOf_append]
      · have hplain : a ∉ c :: these := by simp [hsame, ha]
        have hnot : a ≠ '%' := by
          rintro rfl
          exact hplain hpercent
        rw [if_neg hplain, if_neg ha, List.singleton_append, hpass hnot, ih, List.singleton_append]

/-- A character that does not stand in the escaped text. -/
theorem notMem_escapeThese {c : Char} {these : List Char} (hc : c ∈ these)
    (hthese : these ⊆ reserved) (hplain : ∀ a ∈ reserved, c ∉ escapeOf a) (s : List Char) :
    c ∉ escapeThese these s := by
  rw [escapeThese, List.mem_flatMap]
  rintro ⟨a, _, hmem⟩
  by_cases ha : a ∈ these
  · rw [if_pos ha] at hmem
    exact hplain a (hthese ha) hmem
  · rw [if_neg ha, List.mem_singleton] at hmem
    exact ha (hmem ▸ hc)

/-! ### What is written -/

/-- A message is escaped as by three replacements, the percent sign first. -/
theorem escapeMessage_eq_replaceAll (s : List Char) :
    escapeMessage s = replaceAll ['\n'] "%0A".toList
      (replaceAll ['\r'] "%0D".toList (replaceAll ['%'] "%25".toList s)) := by
  simp only [replaceAll_singleton, List.flatMap_assoc, escapeMessage]
  congr 1
  funext c
  by_cases hpercent : c = '%'
  · subst hpercent
    decide
  · by_cases hreturn : c = '\r'
    · subst hreturn
      decide
    · simp [hpercent, hreturn]

/-- A property is escaped as a message, and then by two replacements more. -/
theorem escapeProperty_eq_replaceAll (s : List Char) :
    escapeProperty s = replaceAll [','] "%2C".toList
      (replaceAll [':'] "%3A".toList (escapeMessage s)) := by
  simp only [replaceAll_singleton, List.flatMap_assoc, escapeProperty]
  congr 1
  funext c
  by_cases hcolon : c = ':'
  · subst hcolon
    decide
  · simp [hcolon]

theorem escapeMessage_eq (s : List Char) : escapeMessage s = escapeThese ['\r', '\n', '%'] s := by
  rw [escapeMessage, escapeThese]
  congr 1
  funext c
  by_cases hmem : c ∈ ['\r', '\n', '%']
  · rw [if_pos hmem]
    simp only [List.mem_cons, List.not_mem_nil, or_false] at hmem
    rcases hmem with rfl | rfl | rfl
    · decide
    · decide
    · decide
  · rw [if_neg hmem]
    simp_all

theorem escapeProperty_eq (s : List Char) : escapeProperty s = escapeThese reserved s := by
  rw [escapeProperty, escapeMessage, List.flatMap_assoc, escapeThese]
  congr 1
  funext c
  by_cases hmem : c ∈ reserved
  · rw [if_pos hmem]
    simp only [reserved, List.mem_cons, List.not_mem_nil, or_false] at hmem
    rcases hmem with rfl | rfl | rfl | rfl | rfl
    · decide
    · decide
    · decide
    · decide
    · decide
  · rw [if_neg hmem]
    simp_all [reserved]

/-! ### Reading -/

/-- The text with escapes of several kinds undone, one kind after the other. -/
def undo (escapes : List (List Char × Char)) (s : List Char) : List Char :=
  escapes.foldl (fun s escape => replaceAll escape.1 [escape.2] s) s

def readMessage : List Char → List Char :=
  undo [("%0D".toList, '\r'), ("%0A".toList, '\n'), ("%25".toList, '%')]

def readValue : List Char → List Char :=
  undo [("%0D".toList, '\r'), ("%0A".toList, '\n'), ("%3A".toList, ':'), ("%2C".toList, ','),
    ("%25".toList, '%')]

/-- What a line asks a workflow to do. -/
structure Command where
  name : List Char
  properties : List (List Char × List Char)
  message : List Char
deriving DecidableEq

/-- The name and the value of a property, which its first `=` parts. -/
def readProperty? (s : List Char) : Option (List Char × List Char) :=
  (cut? ['='] s).map fun (name, value) => (name, readValue value)

/-- The command of a line: a name and properties between two pairs of colons, then the message. -/
def readCommand? (line : List Char) : Option Command := do
  let line ← expect? "::".toList line
  let (front, message) ← cut? "::".toList line
  let name := front.takeWhile (· ≠ ' ')
  let properties := (front.dropWhile (· ≠ ' ')).tail
  return ⟨name, (properties.splitOn ',').filterMap readProperty?, readMessage message⟩

/-- All escapes are undone, if the percent sign comes last. -/
theorem undo_escapeThese {front : List Char} (hreserved : front ⊆ reserved)
    (hnodup : (front ++ ['%']).Nodup) (s : List Char) :
    undo ((front ++ ['%']).map fun c => (escapeOf c, c)) (escapeThese (front ++ ['%']) s) = s := by
  have hpercent : '%' ∈ reserved := by decide
  induction front with
  | nil =>
    have hlast := replaceAll_escapeThese hpercent (List.nil_subset _) List.not_mem_nil
      List.mem_cons_self s
    exact hlast.trans (escapeThese_of_nothing s)
  | cons c front ih =>
    obtain ⟨hc, hfront⟩ := List.cons_subset.1 hreserved
    obtain ⟨hnew, hnodup⟩ := List.nodup_cons.1 hnodup
    have hthese : front ++ ['%'] ⊆ reserved :=
      List.append_subset.2 ⟨hfront, List.cons_subset.2 ⟨hpercent, List.nil_subset _⟩⟩
    have hone := replaceAll_escapeThese hc hthese hnew (by simp) s
    rw [List.cons_append, List.map_cons, undo, List.foldl_cons, hone]
    exact ih hfront hnodup

theorem readMessage_escapeMessage (s : List Char) : readMessage (escapeMessage s) = s := by
  have hcodes : [("%0D".toList, '\r'), ("%0A".toList, '\n'), ("%25".toList, '%')] =
      (['\r', '\n'] ++ ['%']).map fun c => (escapeOf c, c) := rfl
  rw [escapeMessage_eq, readMessage, hcodes]
  exact undo_escapeThese (by decide) (by decide) s

theorem readValue_escapeProperty (s : List Char) : readValue (escapeProperty s) = s := by
  have hcodes : [("%0D".toList, '\r'), ("%0A".toList, '\n'), ("%3A".toList, ':'),
      ("%2C".toList, ','), ("%25".toList, '%')] =
      (['\r', '\n', ':', ','] ++ ['%']).map fun c => (escapeOf c, c) := rfl
  rw [escapeProperty_eq, readValue, hcodes]
  exact undo_escapeThese (by decide) (by decide) s

/-! ### The whole annotation -/

/-- The properties of an annotation, as they are written. -/
def propertyText (file : Option (List Char)) : List Char :=
  match file with
  | some name => "file=".toList ++ escapeProperty name ++ ",title=stdbake".toList
  | none => "title=stdbake".toList

theorem propertyText_none : propertyText none = "title=stdbake".toList := rfl

theorem propertyText_some (name : List Char) : propertyText (some name) =
    "file=".toList ++ escapeProperty name ++ ",title=stdbake".toList := rfl

/-- The properties of an annotation, as they are read. -/
def propertiesOf (file : Option (List Char)) : List (List Char × List Char) :=
  (file.map ("file".toList, ·)).toList ++ [("title".toList, "stdbake".toList)]

theorem annotation_eq (file : Option (List Char)) (message : List Char) :
    annotation file message = "::".toList ++
      ("error".toList ++ ' ' :: propertyText file ++ "::".toList ++ escapeMessage message) := by
  have hname : "::error".toList = "::".toList ++ "error".toList := by decide
  have hfile : " file=".toList = ' ' :: "file=".toList := by decide
  have htitle : " title=stdbake".toList = ' ' :: "title=stdbake".toList := by decide
  cases file with
  | none =>
    change "::error".toList ++ " title=stdbake".toList ++ "::".toList ++ escapeMessage message = _
    rw [hname, htitle, propertyText_none]
    simp only [List.append_assoc]
  | some name =>
    change "::error".toList ++ (" file=".toList ++ escapeProperty name ++ ",title=stdbake".toList) ++
      "::".toList ++ escapeMessage message = _
    rw [hname, hfile, propertyText_some]
    simp only [List.append_assoc, List.cons_append]

theorem notMem_escapeMessage {c : Char} (hc : c ∈ ['\r', '\n']) (s : List Char) :
    c ∉ escapeMessage s := by
  have hall : ['\r', '\n'].all fun c => c ∈ ['\r', '\n', '%'] ∧
      reserved.all fun a => c ∉ escapeOf a := by decide
  obtain ⟨hmem, hplain⟩ := of_decide_eq_true (List.all_eq_true.1 hall c hc)
  rw [escapeMessage_eq]
  exact notMem_escapeThese hmem (by decide)
    (fun a ha => of_decide_eq_true (List.all_eq_true.1 hplain a ha)) s

theorem notMem_escapeProperty {c : Char} (hc : c ∈ ['\r', '\n', ':', ',']) (s : List Char) :
    c ∉ escapeProperty s := by
  have hall : ['\r', '\n', ':', ','].all fun c => c ∈ reserved ∧
      reserved.all fun a => c ∉ escapeOf a := by decide
  obtain ⟨hmem, hplain⟩ := of_decide_eq_true (List.all_eq_true.1 hall c hc)
  rw [escapeProperty_eq]
  exact notMem_escapeThese hmem (List.Subset.refl _)
    (fun a ha => of_decide_eq_true (List.all_eq_true.1 hplain a ha)) s

theorem notMem_propertyText {c : Char} (hc : c ∈ ['\r', '\n', ':']) (file : Option (List Char)) :
    c ∉ propertyText file := by
  have hfixed : ['\r', '\n', ':'].all fun c => c ∈ ['\r', '\n', ':', ','] ∧ c ∉ "file=".toList ∧
      c ∉ ",title=stdbake".toList ∧ c ∉ "title=stdbake".toList := by decide
  obtain ⟨hmem, hfront, hback, halone⟩ := of_decide_eq_true (List.all_eq_true.1 hfixed c hc)
  cases file with
  | none => exact halone
  | some name =>
    simp only [propertyText_some, List.mem_append, not_or]
    exact ⟨⟨hfront, notMem_escapeProperty hmem name⟩, hback⟩

theorem readProperty?_append {name : List Char} (hname : '=' ∉ name) (value : List Char) :
    readProperty? (name ++ '=' :: value) = some (name, readValue value) := by
  rw [readProperty?, cut?_singleton hname]
  rfl

/-- The properties fall apart at the commas, for none stands in an escaped name. -/
theorem properties_propertyText (file : Option (List Char)) :
    ((propertyText file).splitOn ',').filterMap readProperty? = propertiesOf file := by
  have htitle : "title=stdbake".toList = "title".toList ++ '=' :: "stdbake".toList := by decide
  have hvalue : readValue "stdbake".toList = "stdbake".toList := by
    have hplain := readValue_escapeProperty "stdbake".toList
    rwa [show escapeProperty "stdbake".toList = "stdbake".toList by decide] at hplain
  have hread : readProperty? "title=stdbake".toList = some ("title".toList, "stdbake".toList) := by
    rw [htitle, readProperty?_append (by decide), hvalue]
  cases file with
  | none =>
    rw [propertyText_none, List.splitOn_eq_singleton (by decide), List.filterMap_cons, hread]
    rfl
  | some name =>
    have hcomma : ',' ∉ "file=".toList ++ escapeProperty name := by
      simp only [List.mem_append, not_or]
      exact ⟨by decide, notMem_escapeProperty (by decide) name⟩
    have hfile : "file=".toList = "file".toList ++ ['='] := by decide
    have hback : ",title=stdbake".toList = ',' :: "title=stdbake".toList := by decide
    have hname : readProperty? ("file=".toList ++ escapeProperty name) =
        some ("file".toList, name) := by
      rw [hfile, List.append_assoc, List.singleton_append, readProperty?_append (by decide),
        readValue_escapeProperty]
    rw [propertyText_some, hback, splitOn_append_cons, List.splitOn_eq_singleton hcomma,
      List.splitOn_eq_singleton (by decide), List.singleton_append, List.filterMap_cons, hname,
      List.filterMap_cons, hread]
    rfl

/-- The first pair of colons behind the name ends the properties, for none stands in them. -/
theorem cut?_propertyText (file : Option (List Char)) (rest : List Char) :
    cut? "::".toList ("error".toList ++ ' ' :: propertyText file ++ "::".toList ++ rest) =
      some ("error".toList ++ ' ' :: propertyText file, rest) := by
  have hcolon : ':' ∉ "error".toList ++ ' ' :: propertyText file := by
    simp only [List.mem_append, List.mem_cons, not_or]
    exact ⟨by decide, by decide, notMem_propertyText (by decide) file⟩
  apply cut?_append
  intro tail hne htail
  cases tail with
  | nil => exact absurd rfl hne
  | cons c tail =>
    have hc : ':' ≠ c := by
      rintro rfl
      exact hcolon (htail.subset List.mem_cons_self)
    have htoken : "::".toList = [':', ':'] := by decide
    simp only [htoken, List.cons_append, expect?, if_neg hc]

/-- An annotation is one line, and a reader of commands gets back the file, if there is one, and the
message. -/
theorem readCommand?_annotation (file : Option (List Char)) (message : List Char) :
    '\r' ∉ annotation file message ∧ '\n' ∉ annotation file message ∧
      (readCommand? <| annotation file message) =
        some ⟨"error".toList, propertiesOf file, message⟩ := by
  have hline : ∀ c, c ∈ ['\r', '\n'] → c ∉ annotation file message := by
    intro c hc
    have hfixed : ['\r', '\n'].all fun c => c ∈ ['\r', '\n', ':'] ∧ c ∉ "::".toList ∧
        c ∉ "error".toList ∧ c ≠ ' ' := by decide
    obtain ⟨hmem, hcolons, hname, hblank⟩ := of_decide_eq_true (List.all_eq_true.1 hfixed c hc)
    simp only [annotation_eq, List.mem_append, List.mem_cons, not_or]
    exact ⟨hcolons, ⟨⟨hname, hblank, notMem_propertyText hmem file⟩, hcolons⟩,
      notMem_escapeMessage hc message⟩
  refine ⟨hline _ (by decide), hline _ (by decide), ?_⟩
  have hword : ("error".toList ++ ' ' :: propertyText file).takeWhile (· ≠ ' ') = "error".toList ∧
      ("error".toList ++ ' ' :: propertyText file).dropWhile (· ≠ ' ') = ' ' :: propertyText file := by
    have hname : "error".toList = ['e', 'r', 'r', 'o', 'r'] := by decide
    rw [hname]
    exact ⟨rfl, rfl⟩
  rw [readCommand?, annotation_eq, expect?_append, Option.bind_eq_bind, Option.bind_some,
    cut?_propertyText]
  simp only [Option.bind_eq_bind, Option.bind_some, Option.pure_def, hword.1, hword.2,
    List.tail_cons, properties_propertyText, readMessage_escapeMessage]

end AssetBake.Report
