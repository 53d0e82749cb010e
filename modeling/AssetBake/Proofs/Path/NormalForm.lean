import AssetBake.Proofs.Key.Derivation
import AssetBake.Proofs.Path.Names
import Mathlib

/-!
# Normal forms of paths

A path has a normal form just if it is relative, does not go up, and what is left of it without empty
pieces and `.` is some names that are texts. The form is the path of these names. So it is a normal form
itself, it is shared by the paths with the same names and by no others, and a key is derived from it as
from any of them.
-/

namespace AssetBake

open Text

variable {p q : Path} {text : List Char} {way way' : List Name}

/-! ### Texts in normal form -/

/-- A text that is a path of names: parts with one slash between each two, and no part is empty, `.`
or `..`. -/
structure IsNormal (text : List Char) : Prop where
  ne_nil : text ≠ []
  parts : ∀ part ∈ text.splitOn '/', part ≠ [] ∧ part ≠ ['.'] ∧ part ≠ ['.', '.']
  head : text.head? ≠ some '/'
  last : text.getLast? ≠ some '/'

/-- Where a slash stands at an end of a text, an empty part does. -/
theorem IsNormal.of_parts
    (h : ∀ part ∈ text.splitOn '/', part ≠ [] ∧ part ≠ ['.'] ∧ part ≠ ['.', '.']) :
    IsNormal text where
  ne_nil := by
    rintro rfl
    exact (h [] (by simp)).1 rfl
  parts := h
  head := by
    intro hhead
    obtain ⟨rest, rfl⟩ := List.head?_eq_some_iff.1 hhead
    exact (h [] (by simp [List.splitOn_cons_eq_if_modifyHead])).1 rfl
  last := by
    intro hlast
    obtain ⟨front, rfl⟩ := List.getLast?_eq_some_iff.1 hlast
    exact (h [] (by simp [splitOn_append_cons])).1 rfl

namespace Path

theorem slash_not_mem_nameText {n : Name} (h : ∃ text, Utf8.decode? n.bytes = some text) :
    '/' ∉ nameText n := by
  intro hmem
  have hbyte : slash ∈ n.bytes := by
    rw [← encode_nameText h, Utf8.encode_ofList]
    exact List.mem_flatMap.2 ⟨'/', hmem, by decide⟩
  exact n.plain.2.1 hbyte

theorem nameText_ne {n : Name} (h : ∃ text, Utf8.decode? n.bytes = some text) :
    nameText n ≠ [] ∧ nameText n ≠ ['.'] ∧ nameText n ≠ ['.', '.'] := by
  have hbytes := encode_nameText h
  refine ⟨fun htext => ?_, fun htext => ?_, fun htext => ?_⟩
  · rw [htext] at hbytes
    exact n.plain.1 hbytes.symm
  · rw [htext] at hbytes
    exact n.plain.2.2.1 hbytes.symm
  · rw [htext] at hbytes
    exact n.plain.2.2.2 hbytes.symm

theorem isNormal_componentText_ofNames (hne : way ≠ [])
    (htext : ∀ n ∈ way, ∃ text, Utf8.decode? n.bytes = some text) :
    IsNormal (ofNames way).componentText.toList := by
  have hparts : (ofNames way).componentText.toList.splitOn '/' = way.map nameText := by
    rw [componentText_ofNames, String.toList_ofList]
    refine List.splitOn_intercalate '/' ?_ (by simpa using hne)
    exact List.forall_mem_map.2 fun n hn => slash_not_mem_nameText (htext n hn)
  apply IsNormal.of_parts
  rw [hparts]
  exact List.forall_mem_map.2 fun n hn => nameText_ne (htext n hn)

/-! ### What a path is made of -/

/-- The pieces of a path between its slashes that are neither empty nor `.`. -/
def solidPieces (p : Path) : List (List UInt8) :=
  (p.bytes.splitOn slash).filter fun piece => piece ≠ [] ∧ piece ≠ [dot]

theorem mem_solidPieces {piece : List UInt8} :
    piece ∈ p.solidPieces ↔ piece ∈ p.bytes.splitOn slash ∧ piece ≠ [] ∧ piece ≠ [dot] := by
  simp [solidPieces]

theorem void_or_mem_solidPieces {piece : List UInt8} (h : piece ∈ p.bytes.splitOn slash) :
    piece = [] ∨ piece = [dot] ∨ piece ∈ p.solidPieces := by
  rw [mem_solidPieces]
  tauto

/-- A relative path of just these names, all of them texts, with empty pieces and `.` in any place. -/
structure IsMadeOf (p : Path) (way : List Name) : Prop where
  relative : p.bytes.head? ≠ some slash
  solidPieces_eq : p.solidPieces = way.map (·.bytes)
  ne_nil : way ≠ []
  texts : ∀ n ∈ way, ∃ text, Utf8.decode? n.bytes = some text

/-- A piece that is solid and not `..` is a name. -/
theorem exists_map_bytes_eq (h : [dot, dot] ∉ p.bytes.splitOn slash) :
    ∃ way : List Name, way.map (·.bytes) = p.solidPieces := by
  have hnames : ∀ piece ∈ p.solidPieces, piece ∈ Set.range Name.bytes := by
    intro piece hpiece
    obtain ⟨hmem, hempty, hdot⟩ := mem_solidPieces.1 hpiece
    have hdots : piece ≠ [dot, dot] := fun heq => h (heq ▸ hmem)
    exact ⟨⟨piece, hempty, notMem_of_mem_splitOn hmem, hdot, hdots⟩, rfl⟩
  exact (Set.ext_iff.1 (Set.range_list_map Name.bytes) p.solidPieces).2 hnames

theorem exists_isMadeOf_iff :
    (∃ way, p.IsMadeOf way) ↔
      p.bytes.head? ≠ some slash ∧ [dot, dot] ∉ p.bytes.splitOn slash ∧ p.solidPieces ≠ [] ∧
        ∀ piece ∈ p.bytes.splitOn slash, ∃ text, Utf8.decode? piece = some text := by
  constructor
  · rintro ⟨way, hmade⟩
    have hname : ∀ piece ∈ p.solidPieces, ∃ n ∈ way, n.bytes = piece := by
      intro piece hpiece
      rw [hmade.solidPieces_eq] at hpiece
      exact List.mem_map.1 hpiece
    refine ⟨hmade.relative, fun hup => ?_, ?_, fun piece hpiece => ?_⟩
    · obtain ⟨n, _, hn⟩ := hname _ (mem_solidPieces.2 ⟨hup, by decide, by decide⟩)
      exact n.plain.2.2.2 hn
    · rw [hmade.solidPieces_eq]
      simpa using hmade.ne_nil
    · rcases void_or_mem_solidPieces hpiece with rfl | rfl | hsolid
      · exact ⟨"", Utf8.decode?_eq_some_iff.2 rfl⟩
      · exact ⟨".", Utf8.decode?_eq_some_iff.2 rfl⟩
      · obtain ⟨n, hn, rfl⟩ := hname piece hsolid
        exact hmade.texts n hn
  · rintro ⟨hrelative, hup, hsolid, htexts⟩
    obtain ⟨way, hway⟩ := exists_map_bytes_eq hup
    refine ⟨way, hrelative, hway.symm, ?_, fun n hn => ?_⟩
    · rintro rfl
      exact hsolid hway.symm
    · have hmem : n.bytes ∈ p.solidPieces := hway ▸ List.mem_map.2 ⟨n, hn, rfl⟩
      exact htexts n.bytes (mem_solidPieces.1 hmem).1

/-! ### Normalizing -/

theorem filterMap_solidPieces (p : Path) :
    p.solidPieces.filterMap Component.ofPiece? =
      (p.bytes.splitOn slash).filterMap Component.ofPiece? := by
  rw [solidPieces, List.filterMap_filter]
  apply List.filterMap_congr
  intro piece hpiece
  rcases void_or_mem_solidPieces hpiece with rfl | rfl | hsolid
  · rfl
  · rfl
  · rw [if_pos (decide_eq_true (mem_solidPieces.1 hsolid).2)]

/-- A leading `.` counts for nothing either, once it comes to the texts. -/
theorem plainTexts_components (h : p.bytes.head? ≠ some slash) :
    plainTexts p.components = plainTexts (p.solidPieces.filterMap Component.ofPiece?) := by
  rw [filterMap_solidPieces]
  cases hbytes : p.bytes with
  | nil =>
    rw [components, hbytes]
    rfl
  | cons b rest =>
    have hb : b ≠ slash := fun heq => h (by simp [hbytes, heq])
    obtain ⟨first, more, hpieces⟩ :=
      List.exists_cons_of_ne_nil (List.splitOn_ne_nil slash (b :: rest))
    simp only [components, hbytes, if_neg hb, hpieces]
    split
    · next hdot =>
      rw [hdot]
      rfl
    · rw [List.filterMap_cons]
      cases Component.ofPiece? first <;> rfl

theorem parent_not_mem_of_plainTexts {components : List Component} {texts : List (List Char)}
    (h : plainTexts components = .ok texts) : .parent ∉ components := by
  fun_induction plainTexts components generalizing texts with
  | case1 => simp
  | case2 rest ih => simpa using ih h
  | case3 => simp at h
  | case4 n rest text htext ih =>
    obtain ⟨more, hmore, _⟩ := Except.map_eq_ok_iff.1 h
    simpa using ih hmore
  | case5 => simp at h

theorem exists_isMadeOf (h : p.normalize = .ok text) : ∃ way, p.IsMadeOf way := by
  have hrelative : p.bytes.head? ≠ some slash := by
    intro hhead
    obtain ⟨rest, hbytes⟩ := List.head?_eq_some_iff.1 hhead
    simp [normalize, components, hbytes, plainTexts] at h
  rw [normalize] at h
  split at h
  · simp at h
  · simp at h
  · next texts hne hplain =>
    rw [plainTexts_components hrelative] at hplain
    have hup : [dot, dot] ∉ p.bytes.splitOn slash := by
      intro hmem
      have hsolid : [dot, dot] ∈ p.solidPieces := mem_solidPieces.2 ⟨hmem, by decide, by decide⟩
      exact parent_not_mem_of_plainTexts hplain (List.mem_filterMap.2 ⟨_, hsolid, rfl⟩)
    obtain ⟨way, hway⟩ := exists_map_bytes_eq hup
    rw [← hway, filterMap_bytes Component.ofPiece?_bytes] at hplain
    refine ⟨way, hrelative, hway.symm, ?_, fun n hn => ?_⟩
    · rintro rfl
      exact hne (Except.ok.inj hplain).symm
    · exact isText_of_mem_plainTexts hplain (List.mem_map.2 ⟨n, hn, rfl⟩)

/-- A path made of names has the normal form of the path of these names. -/
theorem IsMadeOf.normalize_eq (h : p.IsMadeOf way) :
    p.normalize = .ok (ofNames way).componentText.toList := by
  have hplain : plainTexts p.components = plainTexts (ofNames way).components := by
    rw [plainTexts_components h.relative, h.solidPieces_eq,
      filterMap_bytes Component.ofPiece?_bytes, components_ofNames]
  rw [← normalize_ofNames h.ne_nil h.texts, normalize, normalize, hplain]

theorem normalize_eq_ok_iff :
    p.normalize = .ok text ↔
      ∃ way, p.IsMadeOf way ∧ text = (ofNames way).componentText.toList := by
  constructor
  · intro h
    obtain ⟨way, hmade⟩ := exists_isMadeOf h
    exact ⟨way, hmade, Except.ok.inj (h.symm.trans hmade.normalize_eq)⟩
  · rintro ⟨way, hmade, rfl⟩
    exact hmade.normalize_eq

/-! ### The normal form as a path -/

/-- The names of a path are known from its solid pieces, and from its normal form as well. -/
theorem IsMadeOf.componentText_eq_iff (hp : p.IsMadeOf way) (hq : q.IsMadeOf way') :
    (ofNames way).componentText.toList = (ofNames way').componentText.toList ↔
      p.solidPieces = q.solidPieces := by
  rw [hp.solidPieces_eq, hq.solidPieces_eq]
  constructor
  · intro h
    rw [eq_of_componentText_eq hp.texts hq.texts (String.toList_inj.1 h)]
  · intro h
    have hnames : ofNames way = ofNames way' := by rw [ofNames, ofNames, h]
    rw [hnames]

end Path

/-- A key is derived from the normal form of a path alone. -/
theorem KeyStyle.derive_congr (style : KeyStyle) (h : p.normalize = q.normalize) :
    style.derive p = style.derive q := by
  rw [derive, derive, h]

namespace Path

/-- A path has a normal form just if it does not begin with a slash, has no piece `..`, has a piece
that is neither empty nor `.`, and all its pieces are texts. The form is normal, and so unchanged when
it is normalized again; another path has the same form just if it has the same solid pieces; and no
style tells the path from its form, be it by the key or by the reason why there is none. -/
theorem normalize_exact (p : Path) :
    ((∃ text, p.normalize = .ok text) ↔
      p.bytes.head? ≠ some slash ∧ [dot, dot] ∉ p.bytes.splitOn slash ∧ p.solidPieces ≠ [] ∧
        ∀ piece ∈ p.bytes.splitOn slash, ∃ text, Utf8.decode? piece = some text) ∧
    ∀ text, p.normalize = .ok text →
      IsNormal text ∧
      (ofString (String.ofList text)).normalize = .ok text ∧
      (∀ (q : Path) (text' : List Char), q.normalize = .ok text' →
        (text = text' ↔ p.solidPieces = q.solidPieces)) ∧
      ∀ style : KeyStyle, style.derive (ofString (String.ofList text)) = style.derive p := by
  constructor
  · rw [← exists_isMadeOf_iff]
    constructor
    · rintro ⟨text, h⟩
      exact exists_isMadeOf h
    · rintro ⟨way, hmade⟩
      exact ⟨_, hmade.normalize_eq⟩
  · intro text h
    obtain ⟨way, hmade, rfl⟩ := normalize_eq_ok_iff.1 h
    have hagain : (ofString (String.ofList (ofNames way).componentText.toList)).normalize =
        p.normalize := by
      rw [String.ofList_toList, ofString_componentText_ofNames hmade.texts,
        normalize_ofNames hmade.ne_nil hmade.texts, h]
    refine ⟨isNormal_componentText_ofNames hmade.ne_nil hmade.texts, hagain.trans h, ?_,
      fun style => style.derive_congr hagain⟩
    intro q text' hq
    obtain ⟨way', hmade', rfl⟩ := normalize_eq_ok_iff.1 hq
    exact hmade.componentText_eq_iff hmade'

/-- Void pieces in every place, a name of three dots and one that is not of ASCII. -/
theorem normalize_exact_scattered :
    (ofString ".//a/./é//.../").normalize = .ok "a/é/...".toList ∧
    (ofString "a/é/././...").normalize = .ok "a/é/...".toList ∧
    IsNormal "a/é/...".toList ∧
    (ofString (String.ofList "a/é/...".toList)).normalize = .ok "a/é/...".toList ∧
    (ofString ".//a/./é//.../").solidPieces = (ofString "a/é/././...").solidPieces ∧
    KeyStyle.standard.derive (ofString (String.ofList "a/é/...".toList)) =
      KeyStyle.standard.derive (ofString ".//a/./é//.../") := by
  have hp : (ofString ".//a/./é//.../").normalize = .ok "a/é/...".toList := by cbv
  have hq : (ofString "a/é/././...").normalize = .ok "a/é/...".toList := by cbv
  obtain ⟨_, hform⟩ := normalize_exact (ofString ".//a/./é//.../")
  obtain ⟨hnormal, hagain, hsame, hderive⟩ := hform _ hp
  exact ⟨hp, hq, hnormal, hagain, (hsame _ _ hq).1 rfl, hderive _⟩

end Path

end AssetBake
