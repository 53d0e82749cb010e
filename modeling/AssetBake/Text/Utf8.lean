/-!
# UTF-8 text in byte strings

Reads bytes one at a time. A byte that cannot go on a started character ends that character as
broken and is looked at afresh, so a broken stretch is never longer than the bytes that could have
begun a character.
-/

namespace AssetBake.Text.Utf8

/-- A character whose first bytes have been read. -/
structure Pending where
  /-- The bits read so far. -/
  value : Nat
  /-- How many bytes are still to come. -/
  missing : Nat
  /-- The range in which the next byte must lie. -/
  low : UInt8
  high : UInt8
  read : Nat
deriving DecidableEq

/-- What one more byte makes of the text. -/
inductive Step
  | character (c : Char)
  | pending (state : Pending)
  | broken
deriving DecidableEq

/-- What a byte means at the start of a character. -/
def start (b : UInt8) : Step :=
  if b < 0x80 then .character (Char.ofNat b.toNat)
  else if b < 0xc2 then .broken
  else if b < 0xe0 then .pending ⟨b.toNat - 0xc0, 1, 0x80, 0xbf, 1⟩
  else if b < 0xf0 then
    .pending ⟨b.toNat - 0xe0, 2, if b = 0xe0 then 0xa0 else 0x80, if b = 0xed then 0x9f else 0xbf, 1⟩
  else if b < 0xf5 then
    .pending ⟨b.toNat - 0xf0, 3, if b = 0xf0 then 0x90 else 0x80, if b = 0xf4 then 0x8f else 0xbf, 1⟩
  else .broken

/-- What a byte means inside a started character. -/
def Pending.next (state : Pending) (b : UInt8) : Step :=
  if state.low ≤ b ∧ b ≤ state.high then
    let value := state.value * 64 + (b.toNat - 0x80)
    if state.missing ≤ 1 then .character (Char.ofNat value)
    else .pending ⟨value, state.missing - 1, 0x80, 0xbf, state.read + 1⟩
  else .broken

/-- The character that stands for a broken stretch. -/
def replacement : Char := '\ufffd'

/-- The text of the bytes after `state`, with one replacement character for each broken stretch. -/
def lossyFrom : Option Pending → List UInt8 → List Char
  | none, [] => []
  | some _, [] => [replacement]
  | none, b :: rest =>
    match start b with
    | .character c => c :: lossyFrom none rest
    | .pending state => lossyFrom (some state) rest
    | .broken => replacement :: lossyFrom none rest
  | some state, b :: rest =>
    match state.next b with
    | .character c => c :: lossyFrom none rest
    | .pending state => lossyFrom (some state) rest
    | .broken =>
      replacement ::
        match start b with
        | .character c => c :: lossyFrom none rest
        | .pending state => lossyFrom (some state) rest
        | .broken => replacement :: lossyFrom none rest

/-- The text of any bytes. -/
def decodeLossy (bytes : List UInt8) : String :=
  String.ofList (lossyFrom none bytes)

inductive Fault
  /-- From `index` on, `length` bytes belong to no character. -/
  | broken (length index : Nat)
  /-- The bytes end inside the character that begins at `index`. -/
  | incomplete (index : Nat)
deriving DecidableEq

def Fault.message : Fault → String
  | .broken length index => s!"invalid utf-8 sequence of {length} bytes from index {index}"
  | .incomplete index => s!"incomplete utf-8 byte sequence from index {index}"

/-- The first fault in the bytes after `state`; `index` is where the current character began. -/
def faultFrom (index : Nat) : Option Pending → List UInt8 → Option Fault
  | none, [] => none
  | some _, [] => some (.incomplete index)
  | none, b :: rest =>
    match start b with
    | .character _ => faultFrom (index + 1) none rest
    | .pending state => faultFrom index (some state) rest
    | .broken => some (.broken 1 index)
  | some state, b :: rest =>
    match state.next b with
    | .character _ => faultFrom (index + state.read + 1) none rest
    | .pending state => faultFrom index (some state) rest
    | .broken => some (.broken state.read index)

/-- The first fault in the bytes, if they are no text. -/
def fault? (bytes : List UInt8) : Option Fault :=
  faultFrom 0 none bytes

def encode (text : String) : List UInt8 :=
  text.toUTF8.data.toList

def byteSize (s : List Char) : Nat :=
  s.foldr (fun c total => c.utf8Size + total) 0

theorem byteSize_cons (c : Char) (s : List Char) : byteSize (c :: s) = c.utf8Size + byteSize s := rfl

theorem byteSize_append (s t : List Char) : byteSize (s ++ t) = byteSize s + byteSize t := by
  induction s with
  | nil => simp [byteSize]
  | cons c s ih => rw [List.cons_append, byteSize_cons, byteSize_cons, ih, Nat.add_assoc]

theorem length_le_byteSize (s : List Char) : s.length ≤ byteSize s := by
  induction s with
  | nil => exact Nat.le_refl _
  | cons c s ih =>
    have hc := c.utf8Size_pos
    rw [List.length_cons, byteSize_cons]
    omega

theorem byteSize_le_of_suffix {s t : List Char} (h : s <:+ t) : byteSize s ≤ byteSize t := by
  obtain ⟨front, rfl⟩ := h
  rw [byteSize_append]
  exact Nat.le_add_left _ _

theorem byteSize_lt_of_suffix {s t : List Char} (h : s <:+ t) (hlength : s.length < t.length) :
    byteSize s < byteSize t := by
  obtain ⟨front, rfl⟩ := h
  have hfront := length_le_byteSize front
  rw [List.length_append] at hlength
  rw [byteSize_append]
  omega

/-- The text whose bytes these are. -/
def decode? (bytes : List UInt8) : Option String :=
  String.fromUTF8? ⟨bytes.toArray⟩

theorem encode_of_decode? {bytes : List UInt8} {text : String} (h : decode? bytes = some text) :
    encode text = bytes := by
  unfold decode? String.fromUTF8? at h
  split at h
  · cases h
    rfl
  · simp at h

theorem decode?_encode (text : String) : decode? (encode text) = some text := by
  have hvalid : ByteArray.IsValidUTF8 ⟨(encode text).toArray⟩ := text.isValidUTF8
  rw [decode?, String.fromUTF8?, dif_pos hvalid]
  rfl

/-- The bytes of a text are read back as that text, and no other bytes are. -/
theorem decode?_eq_some_iff {bytes : List UInt8} {text : String} :
    decode? bytes = some text ↔ encode text = bytes :=
  ⟨encode_of_decode?, fun h => h ▸ decode?_encode text⟩

theorem encode_injective {a b : String} (h : encode a = encode b) : a = b :=
  Option.some.inj (by rw [← decode?_encode a, h, decode?_encode])

end AssetBake.Text.Utf8
