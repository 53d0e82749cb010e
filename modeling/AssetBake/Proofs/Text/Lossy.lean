import AssetBake.Proofs.Text.Utf8

/-!
# Broken bytes in texts

Bytes that are shown without a replacement character are the bytes of the text shown. So another text than
that of the bytes is shown only where it has a replacement character.
-/

namespace AssetBake.Text.Utf8

/-! ### The bytes of a character -/

theorem toNat_val_ofNat {n : Nat} (h : n.isValidChar) : (Char.ofNat n).val.toNat = n := by
  rw [Char.ofNat, dif_pos h]
  rfl

theorem utf8EncodeChar_of_one {n : Nat} (hn : n < 128) :
    String.utf8EncodeChar (Char.ofNat n) = [UInt8.ofNat n] := by
  have hv : (Char.ofNat n).val.toNat = n := toNat_val_ofNat (.inl (by omega))
  simp only [String.utf8EncodeChar, hv]
  rw [if_pos (by omega)]

theorem utf8EncodeChar_of_two {n m : Nat} (hlow : 2 ≤ n) (hn : n < 32) (hm : m < 64) :
    String.utf8EncodeChar (Char.ofNat (n * 64 + m)) =
      [UInt8.ofNat (n + 192), UInt8.ofNat (m + 128)] := by
  have hv : (Char.ofNat (n * 64 + m)).val.toNat = n * 64 + m := toNat_val_ofNat (.inl (by omega))
  simp only [String.utf8EncodeChar, hv]
  rw [if_neg (by omega), if_pos (by omega), show (n * 64 + m) / 64 % 32 = n by omega,
    show (n * 64 + m) % 64 = m by omega]

theorem utf8EncodeChar_of_three {n m l : Nat} (hn : n < 16) (hm : m < 64) (hl : l < 64)
    (hlow : n = 0 → 32 ≤ m) (hhigh : n = 13 → m < 32) :
    String.utf8EncodeChar (Char.ofNat ((n * 64 + m) * 64 + l)) =
      [UInt8.ofNat (n + 224), UInt8.ofNat (m + 128), UInt8.ofNat (l + 128)] := by
  have hvalid : ((n * 64 + m) * 64 + l).isValidChar := by
    rw [Nat.isValidChar]
    omega
  simp only [String.utf8EncodeChar, toNat_val_ofNat hvalid]
  rw [if_neg (by omega), if_neg (by omega), if_pos (by omega),
    show ((n * 64 + m) * 64 + l) / 4096 % 16 = n by omega,
    show ((n * 64 + m) * 64 + l) / 64 % 64 = m by omega,
    show ((n * 64 + m) * 64 + l) % 64 = l by omega]

theorem utf8EncodeChar_of_four {n m l k : Nat} (hn : n < 5) (hm : m < 64) (hl : l < 64) (hk : k < 64)
    (hlow : n = 0 → 16 ≤ m) (hhigh : n = 4 → m < 16) :
    String.utf8EncodeChar (Char.ofNat (((n * 64 + m) * 64 + l) * 64 + k)) =
      [UInt8.ofNat (n + 240), UInt8.ofNat (m + 128), UInt8.ofNat (l + 128), UInt8.ofNat (k + 128)] := by
  have hvalid : (((n * 64 + m) * 64 + l) * 64 + k).isValidChar := by
    rw [Nat.isValidChar]
    omega
  simp only [String.utf8EncodeChar, toNat_val_ofNat hvalid]
  rw [if_neg (by omega), if_neg (by omega), if_neg (by omega),
    show (((n * 64 + m) * 64 + l) * 64 + k) / 262144 % 8 = n by omega,
    show (((n * 64 + m) * 64 + l) * 64 + k) / 4096 % 64 = m by omega,
    show (((n * 64 + m) * 64 + l) * 64 + k) / 64 % 64 = l by omega,
    show (((n * 64 + m) * 64 + l) * 64 + k) % 64 = k by omega]

/-! ### Bytes read without a replacement -/

/-- A byte begins a character of one to four bytes, or none. -/
theorem start_cases (b : UInt8) :
    (∃ n < 128, b = UInt8.ofNat n) ∨ (∃ n, 2 ≤ n ∧ n < 32 ∧ b = UInt8.ofNat (n + 192)) ∨
      (∃ n < 16, b = UInt8.ofNat (n + 224)) ∨ (∃ n < 5, b = UInt8.ofNat (n + 240)) ∨
        start b = .broken := by
  have hcases : ∀ n < 256, n < 128 ∨ (194 ≤ n ∧ n < 224) ∨ (224 ≤ n ∧ n < 240) ∨
      (240 ≤ n ∧ n < 245) ∨ start (UInt8.ofNat n) = .broken := by
    decide +kernel
  have hb : b = UInt8.ofNat b.toNat := UInt8.ofNat_toNat.symm
  have hat {base : Nat} (h : base ≤ b.toNat) : b = UInt8.ofNat (b.toNat - base + base) := by
    rwa [Nat.sub_add_cancel h]
  rcases hcases b.toNat b.toNat_lt with h | h | h | h | h
  · exact .inl ⟨b.toNat, h, hb⟩
  · exact .inr (.inl ⟨b.toNat - 192, by omega, by omega, hat (by omega)⟩)
  · exact .inr (.inr (.inl ⟨b.toNat - 224, by omega, hat (by omega)⟩))
  · exact .inr (.inr (.inr (.inl ⟨b.toNat - 240, by omega, hat (by omega)⟩)))
  · rw [← hb] at h
    exact .inr (.inr (.inr (.inr h)))

/-- A started character goes on, if no replacement is shown. -/
theorem exists_next {value missing read : Nat} {low high : UInt8} {rest : List UInt8}
    (hlow : 128 ≤ low.toNat) (hhigh : high.toNat ≤ 191)
    (h : replacement ∉ lossyFrom (some ⟨value, missing, low, high, read⟩) rest) :
    ∃ m more, rest = UInt8.ofNat (m + 128) :: more ∧ m < 64 ∧ low.toNat ≤ m + 128 ∧
      m + 128 ≤ high.toNat ∧
      (1 < missing → replacement ∉
        lossyFrom (some ⟨value * 64 + m, missing - 1, 0x80, 0xbf, read + 1⟩) more) := by
  cases rest with
  | nil => simp [lossyFrom] at h
  | cons b more =>
    by_cases hrange : low ≤ b ∧ b ≤ high
    · rw [UInt8.le_iff_toNat_le, UInt8.le_iff_toNat_le] at hrange
      have hb : b = UInt8.ofNat (b.toNat - 128 + 128) := by
        rw [Nat.sub_add_cancel (by omega), UInt8.ofNat_toNat]
      refine ⟨b.toNat - 128, more, by rw [← hb], by omega, by omega, by omega, fun hmissing => ?_⟩
      rw [hb, lossyFrom, next_ofNat (by omega) (by dsimp only; omega) (by dsimp only; omega),
        if_neg (Nat.not_le.2 hmissing)] at h
      exact h
    · rw [lossyFrom, Pending.next, if_neg hrange] at h
      simp at h

/-- Bytes shown without a replacement begin with the bytes of a character. -/
theorem exists_char {b : UInt8} {rest : List UInt8} (h : replacement ∉ lossyFrom none (b :: rest)) :
    ∃ c more, b :: rest = String.utf8EncodeChar c ++ more := by
  have hplain : 128 ≤ (0x80 : UInt8).toNat ∧ (0xbf : UInt8).toNat ≤ 191 := by decide
  rcases start_cases b with ⟨n, hn, rfl⟩ | ⟨n, hlow, hn, rfl⟩ | ⟨n, hn, rfl⟩ | ⟨n, hn, rfl⟩ | hbroken
  · exact ⟨Char.ofNat n, rest, by rw [utf8EncodeChar_of_one hn, List.singleton_append]⟩
  · rw [lossyFrom, start_ofNat_of_two hlow hn] at h
    obtain ⟨m, more, rfl, hm, -⟩ := exists_next hplain.1 hplain.2 h
    exact ⟨_, more, by rw [utf8EncodeChar_of_two hlow hn hm]; rfl⟩
  · rw [lossyFrom, start_ofNat_of_three hn] at h
    obtain ⟨m, more, rfl, hm, hlow, hhigh, h⟩ :=
      exists_next (by split <;> decide) (by split <;> decide) h
    obtain ⟨l, more, rfl, hl, -⟩ := exists_next hplain.1 hplain.2 (h (by decide))
    have hm0 : n = 0 → 32 ≤ m := by
      rintro rfl
      have : 160 ≤ m + 128 := hlow
      omega
    have hm13 : n = 13 → m < 32 := by
      rintro rfl
      have : m + 128 ≤ 159 := hhigh
      omega
    exact ⟨_, more, by rw [utf8EncodeChar_of_three hn hm hl hm0 hm13]; rfl⟩
  · rw [lossyFrom, start_ofNat_of_four hn] at h
    obtain ⟨m, more, rfl, hm, hlow, hhigh, h⟩ :=
      exists_next (by split <;> decide) (by split <;> decide) h
    obtain ⟨l, more, rfl, hl, -, -, h⟩ := exists_next hplain.1 hplain.2 (h (by decide))
    obtain ⟨k, more, rfl, hk, -⟩ := exists_next hplain.1 hplain.2 (h (by decide))
    have hm0 : n = 0 → 16 ≤ m := by
      rintro rfl
      have : 144 ≤ m + 128 := hlow
      omega
    have hm4 : n = 4 → m < 16 := by
      rintro rfl
      have : m + 128 ≤ 143 := hhigh
      omega
    exact ⟨_, more, by rw [utf8EncodeChar_of_four hn hm hl hk hm0 hm4]; rfl⟩
  · rw [lossyFrom, hbroken] at h
    simp at h

/-- Bytes shown without a replacement are the bytes of what is shown. -/
theorem flatMap_lossyFrom {bytes : List UInt8} (h : replacement ∉ lossyFrom none bytes) :
    (lossyFrom none bytes).flatMap String.utf8EncodeChar = bytes := by
  induction hlength : bytes.length using Nat.strongRecOn generalizing bytes with
  | ind length ih =>
    cases bytes with
    | nil => rfl
    | cons b rest =>
      obtain ⟨c, more, heq⟩ := exists_char h
      have hshorter : more.length < length := by
        have hc := String.length_utf8EncodeChar c
        have := c.utf8Size_pos
        rw [← hlength, heq, List.length_append]
        omega
      rw [heq, lossyFrom_utf8EncodeChar, List.mem_cons, not_or] at h
      rw [heq, lossyFrom_utf8EncodeChar, List.flatMap_cons, ih more.length hshorter h.2 rfl]

theorem encode_decodeLossy {bytes : List UInt8} (h : replacement ∉ (decodeLossy bytes).toList) :
    encode (decodeLossy bytes) = bytes := by
  rw [decodeLossy, String.toList_ofList] at h
  rw [decodeLossy, encode_ofList, flatMap_lossyFrom h]

/-- A text is shown for other bytes than its own only where these are no text and it has a replacement
character. -/
theorem of_decodeLossy_eq {bytes : List UInt8} {text : String} (h : decodeLossy bytes = text)
    (hne : bytes ≠ encode text) : decode? bytes = none ∧ replacement ∈ text.toList := by
  constructor
  · rw [Option.eq_none_iff_forall_ne_some]
    intro other hother
    obtain rfl := encode_of_decode? hother
    rw [decodeLossy_encode] at h
    exact hne (h ▸ rfl)
  · by_contra hmem
    subst h
    exact hne (encode_decodeLossy hmem).symm

end AssetBake.Text.Utf8
