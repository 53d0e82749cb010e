import AssetBake.Proofs.Literal.ReadBack
import Mathlib

/-!
# Texts and their bytes

The bytes of a text hold no broken stretch, so they are shown as the text itself, and they are ordered
as the text is.
-/

namespace AssetBake.Text.Utf8

/-! ### Texts shown again -/

/-- A byte that may go on a character adds its six bits. -/
theorem next_ofNat {state : Pending} {n : Nat} (hn : n < 64) (hlow : state.low.toNat ≤ n + 128)
    (hhigh : n + 128 ≤ state.high.toNat) :
    state.next (UInt8.ofNat (n + 128)) =
      if state.missing ≤ 1 then .character (Char.ofNat (state.value * 64 + n))
      else .pending ⟨state.value * 64 + n, state.missing - 1, 0x80, 0xbf, state.read + 1⟩ := by
  have hbyte : (UInt8.ofNat (n + 128)).toNat = n + 128 := by
    rw [UInt8.toNat_ofNat']
    omega
  have hrange : state.low ≤ UInt8.ofNat (n + 128) ∧ UInt8.ofNat (n + 128) ≤ state.high := by
    rw [UInt8.le_iff_toNat_le, UInt8.le_iff_toNat_le, hbyte]
    exact ⟨hlow, hhigh⟩
  rw [Pending.next, if_pos hrange, hbyte, Nat.add_sub_cancel]

theorem lossyFrom_last (value read n : Nat) (rest : List UInt8) :
    lossyFrom (some ⟨value, 1, 0x80, 0xbf, read⟩) (UInt8.ofNat (n % 64 + 128) :: rest) =
      Char.ofNat (value * 64 + n % 64) :: lossyFrom none rest := by
  have hn : n % 64 < 64 := Nat.mod_lt n (by decide)
  have hhigh : n % 64 + 128 ≤ (0xbf : UInt8).toNat :=
    Nat.add_le_add_right (Nat.le_of_lt_succ hn) 128
  rw [lossyFrom, next_ofNat hn (Nat.le_add_left _ _) hhigh, if_pos (Nat.le_refl 1)]

theorem lossyFrom_more (value missing read n : Nat) {low high : UInt8}
    (hlow : low.toNat ≤ n % 64 + 128) (hhigh : n % 64 + 128 ≤ high.toNat) (rest : List UInt8) :
    lossyFrom (some ⟨value, missing + 2, low, high, read⟩) (UInt8.ofNat (n % 64 + 128) :: rest) =
      lossyFrom (some ⟨value * 64 + n % 64, missing + 1, 0x80, 0xbf, read + 1⟩) rest := by
  have hn : n % 64 < 64 := Nat.mod_lt n (by decide)
  rw [lossyFrom, next_ofNat hn hlow hhigh, if_neg (by simp)]
  rfl

theorem start_ofNat_of_one {n : Nat} (hn : n < 128) :
    start (UInt8.ofNat n) = .character (Char.ofNat n) := by
  revert n
  decide

theorem start_ofNat_of_two {n : Nat} (hlow : 2 ≤ n) (hhigh : n < 32) :
    start (UInt8.ofNat (n + 192)) = .pending ⟨n, 1, 0x80, 0xbf, 1⟩ := by
  revert n
  decide

theorem start_ofNat_of_three {n : Nat} (hn : n < 16) :
    start (UInt8.ofNat (n + 224)) =
      .pending ⟨n, 2, if n = 0 then 0xa0 else 0x80, if n = 13 then 0x9f else 0xbf, 1⟩ := by
  revert n
  decide

theorem start_ofNat_of_four {n : Nat} (hn : n < 5) :
    start (UInt8.ofNat (n + 240)) =
      .pending ⟨n, 3, if n = 0 then 0x90 else 0x80, if n = 4 then 0x8f else 0xbf, 1⟩ := by
  revert n
  decide

/-- The bytes of a character are shown as the character, whatever stands behind them. -/
theorem lossyFrom_utf8EncodeChar (c : Char) (rest : List UInt8) :
    lossyFrom none (String.utf8EncodeChar c ++ rest) = c :: lossyFrom none rest := by
  have hvalid : c.val.toNat < 0xd800 ∨ 0xdfff < c.val.toNat ∧ c.val.toNat < 0x110000 := c.valid
  have hsame : Char.ofNat c.val.toNat = c := Char.ofNat_toNat c
  fun_cases String.utf8EncodeChar c with
  | case1 v h =>
    rw [List.singleton_append, lossyFrom, start_ofNat_of_one (Nat.lt_succ_of_le h), hsame]
  | case2 v _ h =>
    have hv : v / 64 % 32 = v / 64 := Nat.mod_eq_of_lt (by omega)
    have hlow : 2 ≤ v / 64 := by omega
    have hhigh : v / 64 < 32 := by omega
    simp only [List.cons_append, List.nil_append, hv]
    rw [lossyFrom, start_ofNat_of_two hlow hhigh]
    simp only
    rw [lossyFrom_last, Nat.div_add_mod', hsame]
  | case3 v _ h2 h3 =>
    have hv : v / 4096 % 16 = v / 4096 := Nat.mod_eq_of_lt (by omega)
    have hfirst : v / 4096 < 16 := by omega
    have hlow : (if v / 4096 = 0 then (0xa0 : UInt8) else 0x80).toNat ≤ v / 64 % 64 + 128 := by
      split
      · show 160 ≤ v / 64 % 64 + 128
        omega
      · exact Nat.le_add_left _ _
    have hhigh : v / 64 % 64 + 128 ≤ (if v / 4096 = 13 then (0x9f : UInt8) else 0xbf).toNat := by
      split
      · show v / 64 % 64 + 128 ≤ 159
        omega
      · show v / 64 % 64 + 128 ≤ 191
        omega
    have hsecond : v / 4096 * 64 + v / 64 % 64 = v / 64 := by omega
    simp only [List.cons_append, List.nil_append, hv]
    rw [lossyFrom, start_ofNat_of_three hfirst]
    simp only
    rw [lossyFrom_more _ 0 _ _ hlow hhigh, hsecond, lossyFrom_last, Nat.div_add_mod', hsame]
  | case4 v _ _ h4 =>
    have hv : v / 262144 % 8 = v / 262144 := Nat.mod_eq_of_lt (by omega)
    have hfirst : v / 262144 < 5 := by omega
    have hlow : (if v / 262144 = 0 then (0x90 : UInt8) else 0x80).toNat ≤ v / 4096 % 64 + 128 := by
      split
      · show 144 ≤ v / 4096 % 64 + 128
        omega
      · exact Nat.le_add_left _ _
    have hhigh : v / 4096 % 64 + 128 ≤ (if v / 262144 = 4 then (0x8f : UInt8) else 0xbf).toNat := by
      split
      · show v / 4096 % 64 + 128 ≤ 143
        omega
      · show v / 4096 % 64 + 128 ≤ 191
        omega
    have htail : v / 64 % 64 + 128 ≤ (0xbf : UInt8).toNat := by
      show v / 64 % 64 + 128 ≤ 191
      omega
    have hsecond : v / 262144 * 64 + v / 4096 % 64 = v / 4096 := by omega
    have hthird : v / 4096 * 64 + v / 64 % 64 = v / 64 := by omega
    simp only [List.cons_append, List.nil_append, hv]
    rw [lossyFrom, start_ofNat_of_four hfirst]
    simp only
    rw [lossyFrom_more _ 1 _ _ hlow hhigh, hsecond, lossyFrom_more _ 0 _ _ (Nat.le_add_left _ _) htail,
      hthird, lossyFrom_last, Nat.div_add_mod', hsame]

/-- The bytes of characters are shown as the characters, whatever stands behind them. -/
theorem lossyFrom_flatMap (s : List Char) (rest : List UInt8) :
    lossyFrom none (s.flatMap String.utf8EncodeChar ++ rest) = s ++ lossyFrom none rest := by
  induction s with
  | nil => rfl
  | cons c s ih =>
    rw [List.flatMap_cons, List.append_assoc, lossyFrom_utf8EncodeChar, ih, List.cons_append]

/-- A text is shown as it is. -/
theorem decodeLossy_encode (text : String) : decodeLossy (encode text) = text := by
  have hchars := lossyFrom_flatMap text.toList []
  rw [List.append_nil, lossyFrom, List.append_nil] at hchars
  rw [← String.ofList_toList (s := text), encode_ofList, decodeLossy, hchars]

/-! ### Order -/

theorem lex_cons_of_le {a b : Nat} {s t : List UInt8} (hle : a ≤ b) (hb : b < 256)
    (heq : a = b → List.Lex (· < ·) s t) :
    List.Lex (· < ·) (UInt8.ofNat a :: s) (UInt8.ofNat b :: t) := by
  rcases Nat.lt_or_eq_of_le hle with hlt | rfl
  · refine .rel (UInt8.lt_iff_toNat_lt.2 ?_)
    rw [UInt8.toNat_ofNat', UInt8.toNat_ofNat', Nat.mod_eq_of_lt hb, Nat.mod_eq_of_lt (by omega)]
    exact hlt
  · exact .cons (heq rfl)

/-- The bytes of two characters differ before either of them ends, in the order of the characters. -/
theorem lex_utf8EncodeChar {c d : Char} (h : c < d) (front back : List UInt8) :
    List.Lex (· < ·) (String.utf8EncodeChar c ++ front) (String.utf8EncodeChar d ++ back) := by
  have hlt : c.val.toNat < d.val.toNat := h
  have hlast : d.val.toNat < 0x110000 := by
    have hvalid := d.valid
    simp only [UInt32.isValidChar, Nat.isValidChar] at hvalid
    omega
  fun_cases String.utf8EncodeChar c with
  | case1 =>
    fun_cases String.utf8EncodeChar d with
    | case1 => exact lex_cons_of_le (by omega) (by omega) (by omega)
    | case2 => exact lex_cons_of_le (by omega) (by omega) (by omega)
    | case3 => exact lex_cons_of_le (by omega) (by omega) (by omega)
    | case4 => exact lex_cons_of_le (by omega) (by omega) (by omega)
  | case2 =>
    fun_cases String.utf8EncodeChar d with
    | case1 => omega
    | case2 =>
      apply lex_cons_of_le (by omega) (by omega)
      intro h1
      exact lex_cons_of_le (by omega) (by omega) (by omega)
    | case3 => exact lex_cons_of_le (by omega) (by omega) (by omega)
    | case4 => exact lex_cons_of_le (by omega) (by omega) (by omega)
  | case3 =>
    fun_cases String.utf8EncodeChar d with
    | case1 => omega
    | case2 => omega
    | case3 =>
      apply lex_cons_of_le (by omega) (by omega)
      intro h1
      apply lex_cons_of_le (by omega) (by omega)
      intro h2
      exact lex_cons_of_le (by omega) (by omega) (by omega)
    | case4 => exact lex_cons_of_le (by omega) (by omega) (by omega)
  | case4 =>
    fun_cases String.utf8EncodeChar d with
    | case1 => omega
    | case2 => omega
    | case3 => omega
    | case4 =>
      apply lex_cons_of_le (by omega) (by omega)
      intro h1
      apply lex_cons_of_le (by omega) (by omega)
      intro h2
      apply lex_cons_of_le (by omega) (by omega)
      intro h3
      exact lex_cons_of_le (by omega) (by omega) (by omega)

/-- The bytes of texts are ordered as the texts are. -/
theorem lex_encode {s t : String} (h : s < t) : List.Lex (· < ·) (encode s) (encode t) := by
  have hchars : ∀ {a b : List Char}, List.Lex (· < ·) a b →
      List.Lex (· < ·) (a.flatMap String.utf8EncodeChar) (b.flatMap String.utf8EncodeChar) := by
    intro a b hab
    induction hab with
    | nil =>
      rw [List.flatMap_nil, List.flatMap_cons]
      cases hc : String.utf8EncodeChar _ with
      | nil => exact absurd hc String.utf8EncodeChar_ne_nil
      | cons => exact .nil
    | rel hcd =>
      rw [List.flatMap_cons, List.flatMap_cons]
      exact lex_utf8EncodeChar hcd _ _
    | cons _ ih =>
      rw [List.flatMap_cons, List.flatMap_cons]
      exact List.Lex.append_left _ ih _
  rw [← String.ofList_toList (s := s), ← String.ofList_toList (s := t), encode_ofList, encode_ofList]
  exact hchars (List.lex_lt.2 (String.lt_iff_toList_lt.1 h))

end AssetBake.Text.Utf8
