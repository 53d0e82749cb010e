import AssetBake.FileTree.Resolve
import AssetBake.Proofs.Fallible
import AssetBake.Proofs.Text.Pieces
import AssetBake.Proofs.Text.Utf8
import AssetBake.Key

/-!
# Paths made of names

The path of some names has just these names as its components and its steps, below any directory. If
the names are texts, the path is the text of its normal form.
-/

namespace AssetBake

open Text

variable {way way' : List Name}

/-! ### Pieces and steps -/

theorem Name.ofBytes?_bytes (n : Name) : Name.ofBytes? n.bytes = some n := by
  rw [Name.ofBytes?, dif_pos n.plain]

theorem Component.ofPiece?_bytes (n : Name) : Component.ofPiece? n.bytes = some (.name n) := by
  rw [ofPiece?, if_neg n.plain.2.2.2, Name.ofBytes?_bytes]
  rfl

namespace Path

theorem stepOfPiece?_bytes (n : Name) : stepOfPiece? n.bytes = some (.name n) := by
  rw [stepOfPiece?, if_neg n.plain.2.2.1, Component.ofPiece?_bytes]

theorem splitOn_ofNames (hne : way ≠ []) :
    (ofNames way).bytes.splitOn slash = way.map (·.bytes) := by
  refine List.splitOn_intercalate slash ?_ (by simpa using hne)
  simp only [List.forall_mem_map]
  exact fun n _ => n.plain.2.1

theorem filterMap_bytes {f : List UInt8 → Option Component}
    (hf : ∀ n : Name, f n.bytes = some (.name n)) (way : List Name) :
    (way.map (·.bytes)).filterMap f = way.map .name := by
  rw [List.filterMap_map, ← List.filterMap_eq_map]
  exact List.filterMap_congr fun n _ => hf n

theorem bareSteps_ofNames (way : List Name) : (ofNames way).bareSteps = way.map .name := by
  cases way with
  | nil => rfl
  | cons n way =>
    rw [bareSteps, splitOn_ofNames (List.cons_ne_nil _ _), filterMap_bytes stepOfPiece?_bytes]

theorem head_bytes_ofNames (n : Name) (way : List Name) :
    ∃ b rest, n.bytes = b :: rest ∧ ∃ more, (ofNames (n :: way)).bytes = b :: more := by
  obtain ⟨b, rest, hb⟩ := List.exists_cons_of_ne_nil n.plain.1
  refine ⟨b, rest, hb, ?_⟩
  cases way with
  | nil => exact ⟨rest, by simpa [ofNames] using hb⟩
  | cons m way =>
    exact ⟨_, by simp only [ofNames, List.map_cons, List.intercalate_cons_cons, hb]; rfl⟩

theorem isAbsolute_ofNames (way : List Name) : (ofNames way).isAbsolute = false := by
  cases way with
  | nil => rfl
  | cons n way =>
    obtain ⟨b, rest, hb, more, hmore⟩ := head_bytes_ofNames n way
    have hslash : b ≠ slash := fun h => n.plain.2.1 (by simp [hb, h])
    simp [isAbsolute, hmore, hslash]

theorem components_ofNames (way : List Name) : (ofNames way).components = way.map .name := by
  cases way with
  | nil => rfl
  | cons n way =>
    obtain ⟨b, rest, hb, more, hmore⟩ := head_bytes_ofNames n way
    have hslash : b ≠ slash := fun h => n.plain.2.1 (by simp [hb, h])
    have hpieces := splitOn_ofNames (List.cons_ne_nil n way)
    rw [hmore] at hpieces
    simp only [components, hmore, hpieces, if_neg hslash, List.map_cons, n.plain.2.2.1, if_false,
      Component.ofPiece?_bytes, filterMap_bytes Component.ofPiece?_bytes]
    rfl

theorem ofNames_injective (h : ofNames way = ofNames way') : way = way' := by
  have hcomponents := congrArg components h
  rw [components_ofNames, components_ofNames] at hcomponents
  exact List.map_injective_iff.2 (fun _ _ hab => Component.name.inj hab) hcomponents

theorem bytes_ofNames_ne_nil (hne : way ≠ []) : (ofNames way).bytes ≠ [] := by
  obtain ⟨n, way, rfl⟩ := List.exists_cons_of_ne_nil hne
  obtain ⟨b, rest, hb, more, hmore⟩ := head_bytes_ofNames n way
  simp [hmore]

theorem getLast?_bytes_ofNames (way : List Name) :
    (ofNames way).bytes.getLast? ≠ some slash := by
  intro hlast
  obtain ⟨front, hfront⟩ := List.getLast?_eq_some_iff.1 hlast
  have hne : way ≠ [] := by
    rintro rfl
    simp [ofNames] at hfront
  have hpieces := splitOn_ofNames hne
  rw [hfront, splitOn_append_cons] at hpieces
  have hempty : [] ∈ way.map (·.bytes) := hpieces ▸ List.mem_append_right _ (by simp)
  obtain ⟨n, _, hn⟩ := List.mem_map.1 hempty
  exact n.plain.1 hn

/-! ### Below a directory -/

/-- A path of names below a directory: its bytes after those of the directory, with a slash between
them if there is none. -/
theorem join_ofNames (p : Path) (way : List Name) : ∃ front,
    p.join (ofNames way) = ⟨front ++ (ofNames way).bytes⟩ ∧
    (front = p.bytes ∧ (p.bytes = [] ∨ p.bytes.getLast? = some slash) ∨
      front = p.bytes ++ [slash] ∧ p.bytes ≠ []) := by
  rw [join, isAbsolute_ofNames, if_neg Bool.false_ne_true]
  split
  · next h => exact ⟨_, rfl, .inl ⟨rfl, by simpa using h⟩⟩
  · next h => exact ⟨p.bytes ++ [slash], by simp, .inr ⟨rfl, fun hnil => h (by simp [hnil])⟩⟩

theorem isAbsolute_join_ofNames (p : Path) (way : List Name) :
    (p.join (ofNames way)).isAbsolute = p.isAbsolute := by
  have hnames := isAbsolute_ofNames way
  obtain ⟨front, hjoin, ⟨rfl, _⟩ | ⟨rfl, hne⟩⟩ := join_ofNames p way
  · rw [hjoin]
    cases hp : p.bytes with
    | nil => simpa [isAbsolute, hp] using hnames
    | cons b rest => simp [isAbsolute, hp]
  · obtain ⟨b, rest, hb⟩ := List.exists_cons_of_ne_nil hne
    simp [hjoin, isAbsolute, hb]

theorem endsInSlash_join_ofNames (p : Path) (hne : way ≠ []) :
    (p.join (ofNames way)).endsInSlash = false := by
  obtain ⟨front, hjoin, _⟩ := join_ofNames p way
  obtain ⟨b, hb⟩ := Option.ne_none_iff_exists'.1
    (List.getLast?_eq_none_iff.not.2 (bytes_ofNames_ne_nil hne))
  rw [hjoin, endsInSlash, List.getLast?_append, hb]
  have hslash := getLast?_bytes_ofNames way
  simpa [hb] using hslash

theorem bareSteps_join_ofNames (p : Path) (way : List Name) :
    (p.join (ofNames way)).bareSteps = p.bareSteps ++ way.map .name := by
  have hnames := bareSteps_ofNames way
  obtain ⟨front, hjoin, ⟨rfl, hempty | hlast⟩ | ⟨rfl, _⟩⟩ := join_ofNames p way
  · have hbare : p.bareSteps = [] := by
      rw [bareSteps, hempty]
      rfl
    rw [hjoin, hempty, hbare]
    exact hnames
  · obtain ⟨front, hfront⟩ := List.getLast?_eq_some_iff.1 hlast
    have hbare : p.bareSteps = (front.splitOn slash).filterMap stepOfPiece? := by
      rw [bareSteps, hfront, splitOn_append_cons, List.filterMap_append]
      exact List.append_nil _
    rw [hjoin, hbare, bareSteps, hfront, List.append_assoc, List.singleton_append,
      splitOn_append_cons, List.filterMap_append, ← hnames]
    rfl
  · rw [hjoin, bareSteps, List.append_assoc, List.singleton_append, splitOn_append_cons,
      List.filterMap_append, ← hnames]
    rfl

theorem steps_join_ofNames (p : Path) (hne : way ≠ []) :
    (p.join (ofNames way)).steps = p.bareSteps ++ way.map .name := by
  rw [steps, bareSteps_join_ofNames, endsInSlash_join_ofNames p hne, if_neg Bool.false_ne_true,
    List.append_nil]

/-! ### Names that are texts -/

/-- The text that a name shows as. -/
def nameText (n : Name) : List Char :=
  (Utf8.decodeLossy n.bytes).toList

theorem componentText_ofNames (way : List Name) :
    (ofNames way).componentText = String.ofList (['/'].intercalate (way.map nameText)) := by
  rw [← String.toList_inj, componentText, components_ofNames, String.toList_intercalate,
    List.map_map, List.map_map]
  exact String.toList_ofList.symm

theorem nameText_eq {n : Name} {text : String} (h : Utf8.decode? n.bytes = some text) :
    nameText n = text.toList := by
  rw [nameText, ← Utf8.encode_of_decode? h, Utf8.decodeLossy_encode]

theorem encode_nameText {n : Name} (h : ∃ text, Utf8.decode? n.bytes = some text) :
    Utf8.encode (String.ofList (nameText n)) = n.bytes := by
  obtain ⟨text, htext⟩ := h
  rw [nameText_eq htext, String.ofList_toList, Utf8.encode_of_decode? htext]

theorem plainTexts_names (htext : ∀ n ∈ way, ∃ text, Utf8.decode? n.bytes = some text) :
    plainTexts (way.map .name) = .ok (way.map nameText) := by
  induction way with
  | nil => rfl
  | cons n way ih =>
    obtain ⟨⟨text, hn⟩, hway⟩ := List.forall_mem_cons.1 htext
    simp only [List.map_cons, plainTexts, hn, ih hway, nameText_eq hn]
    rfl

/-- The normal form of a path of names is the path as a text. -/
theorem normalize_ofNames (hne : way ≠ [])
    (htext : ∀ n ∈ way, ∃ text, Utf8.decode? n.bytes = some text) :
    (ofNames way).normalize = .ok (ofNames way).componentText.toList := by
  obtain ⟨n, rest, rfl⟩ := List.exists_cons_of_ne_nil hne
  rw [componentText_ofNames, String.toList_ofList, normalize, components_ofNames,
    plainTexts_names htext]
  rfl

theorem encode_componentText_ofNames
    (htext : ∀ n ∈ way, ∃ text, Utf8.decode? n.bytes = some text) :
    Utf8.encode (ofNames way).componentText = (ofNames way).bytes := by
  have hbytes : (way.map nameText).map (fun part => part.flatMap String.utf8EncodeChar) =
      way.map (·.bytes) := by
    rw [List.map_map]
    apply List.map_congr_left
    intro n hn
    rw [Function.comp_apply, ← Utf8.encode_ofList, encode_nameText (htext n hn)]
  rw [componentText_ofNames, Utf8.encode_ofList, flatMap_intercalate, hbytes]
  rfl

theorem ofString_componentText_ofNames
    (htext : ∀ n ∈ way, ∃ text, Utf8.decode? n.bytes = some text) :
    ofString (ofNames way).componentText = ofNames way :=
  congrArg Path.mk (encode_componentText_ofNames htext)

/-- Names that are texts are known from the text of their path. -/
theorem eq_of_componentText_eq (htext : ∀ n ∈ way, ∃ text, Utf8.decode? n.bytes = some text)
    (htext' : ∀ n ∈ way', ∃ text, Utf8.decode? n.bytes = some text)
    (h : (ofNames way).componentText = (ofNames way').componentText) : way = way' := by
  apply ofNames_injective
  rw [← ofString_componentText_ofNames htext, h, ofString_componentText_ofNames htext']

end Path

end AssetBake
