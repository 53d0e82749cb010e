import AssetBake.Text.Utf8

/-!
# Paths

A path is any byte string. Its components are read off as a file system does: empty pieces and `.`
count for nothing, except that a relative path keeps a leading `.`.
-/

namespace AssetBake

open Text

def slash : UInt8 := 0x2f

def dot : UInt8 := 0x2e

/-- The name of one directory entry. -/
structure Name where
  bytes : List UInt8
  plain : bytes ≠ [] ∧ slash ∉ bytes ∧ bytes ≠ [dot] ∧ bytes ≠ [dot, dot]
deriving DecidableEq

/-- The bytes as a name, if an entry can have it. -/
def Name.ofBytes? (bytes : List UInt8) : Option Name :=
  if h : bytes ≠ [] ∧ slash ∉ bytes ∧ bytes ≠ [dot] ∧ bytes ≠ [dot, dot] then some ⟨bytes, h⟩
  else none

/-- A path: names with slashes between them. -/
structure Path where
  bytes : List UInt8
deriving DecidableEq, Inhabited

/-- One part of a path. -/
inductive Component
  | root
  | current
  | parent
  | name (n : Name)
deriving DecidableEq

def Component.bytes : Component → List UInt8
  | .root => [slash]
  | .current => [dot]
  | .parent => [dot, dot]
  | .name n => n.bytes

/-- The component that a piece between slashes stands for, if it counts. -/
def Component.ofPiece? (piece : List UInt8) : Option Component :=
  if piece = [dot, dot] then some .parent else (Name.ofBytes? piece).map .name

namespace Path

def ofString (text : String) : Path :=
  ⟨Utf8.encode text⟩

/-- The text of the path, with a replacement character for what is no text. -/
def display (p : Path) : String :=
  Utf8.decodeLossy p.bytes

def isAbsolute (p : Path) : Bool :=
  p.bytes.head? == some slash

/-- The parts of the path that count. -/
def components (p : Path) : List Component :=
  match p.bytes with
  | [] => []
  | b :: rest =>
    if b = slash then .root :: (rest.splitOn slash).filterMap Component.ofPiece?
    else
      match (b :: rest).splitOn slash with
      | [] => []
      | first :: more =>
        (if first = [dot] then [.current] else (Component.ofPiece? first).toList) ++
          more.filterMap Component.ofPiece?

def fileName? (p : Path) : Option Name :=
  match p.components.getLast? with
  | some (.name n) => some n
  | _ => none

def ofNames (names : List Name) : Path :=
  ⟨[slash].intercalate (names.map (·.bytes))⟩

/-- The path of `q` as seen from the directory `p`. -/
def join (p q : Path) : Path :=
  if q.isAbsolute then q
  else if p.bytes = [] || p.bytes.getLast? = some slash then ⟨p.bytes ++ q.bytes⟩
  else ⟨p.bytes ++ slash :: q.bytes⟩

/-- The texts of the components with a slash between each two. -/
def componentText (p : Path) : String :=
  "/".intercalate (p.components.map fun c => Utf8.decodeLossy c.bytes)

/-! ### The parent of a path -/

/-- Reversed path bytes without the slashes and `.` pieces in front. -/
def dropVoid : List UInt8 → List UInt8
  | [] => []
  | b :: rest =>
    if b = slash then dropVoid rest
    else if b = dot ∧ (rest.head? = none ∨ rest.head? = some slash) then dropVoid rest
    else b :: rest

theorem length_dropVoid_le (s : List UInt8) : (dropVoid s).length ≤ s.length := by
  induction s with
  | nil => simp [dropVoid]
  | cons b rest ih =>
    simp only [dropVoid]
    split
    · exact Nat.le_succ_of_le ih
    · split
      · exact Nat.le_succ_of_le ih
      · exact Nat.le_refl _

theorem head_dropVoid_ne_slash (s : List UInt8) : (dropVoid s).head? ≠ some slash := by
  induction s with
  | nil => simp [dropVoid]
  | cons b rest ih =>
    simp only [dropVoid]
    split
    · exact ih
    · split
      · exact ih
      · next h _ => simpa using h

/-- The bytes of the path that no parent drops, and the rest: the root, or a leading `.`. -/
def anchor (p : Path) : List UInt8 × List UInt8 :=
  match p.bytes with
  | [] => ([], [])
  | b :: rest =>
    if b = slash then ([slash], rest)
    else if b = dot ∧ (rest.head? = none ∨ rest.head? = some slash) then ([dot], rest)
    else ([], b :: rest)

/-- The path without its last component; the root and the empty path have none. -/
def parent? (p : Path) : Option Path :=
  let (front, body) := p.anchor
  match dropVoid body.reverse with
  | [] => if front = [dot] then some ⟨[]⟩ else none
  | kept => some ⟨front ++ (dropVoid (kept.dropWhile (· ≠ slash))).reverse⟩

theorem anchor_append (p : Path) : p.anchor.1 ++ p.anchor.2 = p.bytes := by
  unfold anchor
  split
  · simp [*]
  · split
    · simp [*]
    · split
      · simp_all
      · simp [*]

theorem length_parent?_lt {p q : Path} (h : p.parent? = some q) :
    q.bytes.length < p.bytes.length := by
  have hsplit := congrArg List.length (anchor_append p)
  rw [List.length_append] at hsplit
  unfold parent? at h
  simp only at h
  split at h
  · split at h
    · next hfront =>
      cases h
      simp [hfront] at hsplit ⊢
      omega
    · simp at h
  · next kept hne =>
    cases h
    have hbody := length_dropVoid_le p.anchor.2.reverse
    rw [List.length_reverse] at hbody
    have hlast := length_dropVoid_le
      ((dropVoid p.anchor.2.reverse).dropWhile (· ≠ slash))
    have hdrop : ((dropVoid p.anchor.2.reverse).dropWhile (· ≠ slash)).length <
        (dropVoid p.anchor.2.reverse).length := by
      cases hk : dropVoid p.anchor.2.reverse with
      | nil => exact absurd hk hne
      | cons b rest =>
        have hb : b ≠ slash := by
          have := head_dropVoid_ne_slash p.anchor.2.reverse
          rw [hk] at this
          simpa using this
        rw [List.dropWhile_cons_of_pos (by simpa using hb)]
        exact Nat.lt_succ_of_le (List.dropWhile_suffix _).length_le
    simp only [List.length_append, List.length_reverse]
    omega

end Path

end AssetBake
