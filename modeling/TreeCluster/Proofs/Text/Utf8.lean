import Mathlib
import TreeCluster.Text.Utf8

/-! # UTF-8 read back

A character is read off the front of its bytes, whatever follows (`step_utf8EncodeChar`), so a text
is read back from its bytes (`decode_encode`). -/

namespace TreeCluster.Text.Utf8

theorem toNat_ofNat {n : ℕ} (h : n < 256) : (UInt8.ofNat n).toNat = n :=
  UInt8.toNat_ofNat_of_lt h

theorem lead_ofNat {n : ℕ} (h : n < 256) :
    lead (UInt8.ofNat n) =
      if n ≤ 0x7F then some (0, 0x80, 0xBF)
      else if n < 0xC2 then none
      else if n ≤ 0xDF then some (1, 0x80, 0xBF)
      else if n = 0xE0 then some (2, 0xA0, 0xBF)
      else if n = 0xED then some (2, 0x80, 0x9F)
      else if n ≤ 0xEF then some (2, 0x80, 0xBF)
      else if n = 0xF0 then some (3, 0x90, 0xBF)
      else if n ≤ 0xF3 then some (3, 0x80, 0xBF)
      else if n = 0xF4 then some (3, 0x80, 0x8F)
      else none := by
  simp [lead, UInt8.le_iff_toNat_le, UInt8.lt_iff_toNat_lt, ← UInt8.toNat_inj, toNat_ofNat h]

theorem isTail_ofNat {n : ℕ} (h : n < 64) : isTail (UInt8.ofNat (n + 0x80)) = true := by
  simp only [isTail, UInt8.le_iff_toNat_le, toNat_ofNat (show n + 0x80 < 256 by omega),
    Bool.and_eq_true, decide_eq_true_eq]
  exact ⟨Nat.le_add_left _ _, show n + 0x80 ≤ 0xBF by omega⟩

theorem tailBits_ofNat {n : ℕ} (h : n < 64) : tailBits (UInt8.ofNat (n + 0x80)) = n := by
  rw [tailBits, toNat_ofNat (by omega)]
  omega

theorem within {n : ℕ} (low high : UInt8) (h : n < 64) (hl : low.toNat ≤ n + 0x80)
    (hh : n + 0x80 ≤ high.toNat) :
    ¬(UInt8.ofNat (n + 0x80) < low ∨ high < UInt8.ofNat (n + 0x80)) := by
  simp only [UInt8.lt_iff_toNat_lt, toNat_ofNat (show n + 0x80 < 256 by omega)]
  omega

variable {n a b c : ℕ} (rest : List UInt8)

theorem step_one (h : n ≤ 0x7F) : step (UInt8.ofNat n) rest = .char (Char.ofNat n) 1 := by
  rw [step, lead_ofNat (by omega), if_pos h]
  simp only [toNat_ofNat (show n < 256 by omega)]

theorem step_two (h : 2 ≤ n) (hn : n < 32) (ha : a < 64) :
    step (UInt8.ofNat (n + 0xC0)) (UInt8.ofNat (a + 0x80) :: rest) =
      .char (Char.ofNat (n * 64 + a)) 2 := by
  have first : (n + 0xC0) % 32 = n := by omega
  have next := within 0x80 0xBF ha (Nat.le_add_left _ _) (show a + 0x80 ≤ 0xBF by omega)
  rw [step, lead_ofNat (by omega), if_neg (by omega), if_neg (by omega), if_pos (by omega)]
  simp only [if_neg next, if_pos, tailBits_ofNat ha, toNat_ofNat (show n + 0xC0 < 256 by omega),
    first]

/-- What the first of three bytes leaves for the second: no number has a shorter form, and none is
a surrogate. -/
theorem lead_three (hn : n < 16) (ha : a < 64) (long : 0x800 ≤ (n * 64 + a) * 64 + b) (hb : b < 64)
    (valid : (n * 64 + a) * 64 + b < 0xD800 ∨ 0xDFFF < (n * 64 + a) * 64 + b) :
    ∃ low high, lead (UInt8.ofNat (n + 0xE0)) = some (2, low, high) ∧
      low.toNat ≤ a + 0x80 ∧ a + 0x80 ≤ high.toNat := by
  rw [lead_ofNat (by omega), if_neg (by omega), if_neg (by omega), if_neg (by omega)]
  by_cases least : n + 0xE0 = 0xE0
  · exact ⟨_, _, if_pos least, show 0xA0 ≤ a + 0x80 by omega, show a + 0x80 ≤ 0xBF by omega⟩
  rw [if_neg least]
  by_cases surrogate : n + 0xE0 = 0xED
  · exact ⟨_, _, if_pos surrogate, Nat.le_add_left _ _, show a + 0x80 ≤ 0x9F by omega⟩
  rw [if_neg surrogate, if_pos (by omega)]
  exact ⟨_, _, rfl, Nat.le_add_left _ _, show a + 0x80 ≤ 0xBF by omega⟩

theorem step_three (hn : n < 16) (ha : a < 64) (hb : b < 64)
    (long : 0x800 ≤ (n * 64 + a) * 64 + b)
    (valid : (n * 64 + a) * 64 + b < 0xD800 ∨ 0xDFFF < (n * 64 + a) * 64 + b) :
    step (UInt8.ofNat (n + 0xE0)) (UInt8.ofNat (a + 0x80) :: UInt8.ofNat (b + 0x80) :: rest) =
      .char (Char.ofNat ((n * 64 + a) * 64 + b)) 3 := by
  have first : (n + 0xE0) % 16 = n := by omega
  obtain ⟨low, high, announced, hl, hh⟩ := lead_three hn ha long hb valid
  rw [step, announced]
  simp only [if_neg (within low high ha hl hh), tailBits_ofNat ha, tailBits_ofNat hb,
    isTail_ofNat hb, toNat_ofNat (show n + 0xE0 < 256 by omega), first]
  rfl

/-- What the first of four bytes leaves for the second: no number has a shorter form, and none
passes the last character. -/
theorem lead_four (hn : n < 8) (ha : a < 64) (hb : b < 64) (hc : c < 64)
    (long : 0x10000 ≤ ((n * 64 + a) * 64 + b) * 64 + c)
    (valid : ((n * 64 + a) * 64 + b) * 64 + c < 0x110000) :
    ∃ low high, lead (UInt8.ofNat (n + 0xF0)) = some (3, low, high) ∧
      low.toNat ≤ a + 0x80 ∧ a + 0x80 ≤ high.toNat := by
  rw [lead_ofNat (by omega), if_neg (by omega), if_neg (by omega), if_neg (by omega),
    if_neg (by omega), if_neg (by omega), if_neg (by omega)]
  by_cases least : n + 0xF0 = 0xF0
  · exact ⟨_, _, if_pos least, show 0x90 ≤ a + 0x80 by omega, show a + 0x80 ≤ 0xBF by omega⟩
  rw [if_neg least]
  by_cases inner : n + 0xF0 ≤ 0xF3
  · exact ⟨_, _, if_pos inner, Nat.le_add_left _ _, show a + 0x80 ≤ 0xBF by omega⟩
  rw [if_neg inner, if_pos (by omega)]
  exact ⟨_, _, rfl, Nat.le_add_left _ _, show a + 0x80 ≤ 0x8F by omega⟩

theorem step_four (hn : n < 8) (ha : a < 64) (hb : b < 64) (hc : c < 64)
    (long : 0x10000 ≤ ((n * 64 + a) * 64 + b) * 64 + c)
    (valid : ((n * 64 + a) * 64 + b) * 64 + c < 0x110000) :
    step (UInt8.ofNat (n + 0xF0))
        (UInt8.ofNat (a + 0x80) :: UInt8.ofNat (b + 0x80) :: UInt8.ofNat (c + 0x80) :: rest) =
      .char (Char.ofNat (((n * 64 + a) * 64 + b) * 64 + c)) 4 := by
  have first : (n + 0xF0) % 8 = n := by omega
  obtain ⟨low, high, announced, hl, hh⟩ := lead_four hn ha hb hc long valid
  rw [step, announced]
  simp only [if_neg (within low high ha hl hh), tailBits_ofNat ha, tailBits_ofNat hb,
    tailBits_ofNat hc, isTail_ofNat hb, isTail_ofNat hc,
    toNat_ofNat (show n + 0xF0 < 256 by omega), first]
  rfl

/-- A character is read off the front of its bytes, whatever follows. -/
theorem step_utf8EncodeChar (c : Char) :
    ∃ b more, String.utf8EncodeChar c = b :: more ∧
      step b (more ++ rest) = .char c (more.length + 1) := by
  have back : Char.ofNat c.val.toNat = c := Char.ofNat_toNat c
  have valid : c.val.toNat < 0xD800 ∨ 0xDFFF < c.val.toNat ∧ c.val.toNat < 0x110000 := c.valid
  unfold String.utf8EncodeChar
  set v := c.val.toNat
  by_cases one : v ≤ 0x7F
  · simp only [if_pos one]
    exact ⟨_, _, rfl, back ▸ step_one rest one⟩
  by_cases two : v ≤ 0x7FF
  · simp only [if_neg one, if_pos two]
    have parts : v / 64 % 32 * 64 + v % 64 = v := by omega
    have read := @step_two (v / 64 % 32) (v % 64) rest (by omega) (by omega) (by omega)
    rw [parts, back] at read
    exact ⟨_, _, rfl, read⟩
  by_cases three : v ≤ 0xFFFF
  · simp only [if_neg one, if_neg two, if_pos three]
    have parts : (v / 4096 % 16 * 64 + v / 64 % 64) * 64 + v % 64 = v := by omega
    have read := @step_three (v / 4096 % 16) (v / 64 % 64) (v % 64) rest (by omega) (by omega)
      (by omega) (by omega) (by omega)
    rw [parts, back] at read
    exact ⟨_, _, rfl, read⟩
  · simp only [if_neg one, if_neg two, if_neg three]
    have parts : ((v / 262144 % 8 * 64 + v / 4096 % 64) * 64 + v / 64 % 64) * 64 + v % 64 = v := by
      omega
    have read := @step_four (v / 262144 % 8) (v / 4096 % 64) (v / 64 % 64) (v % 64) rest (by omega)
      (by omega) (by omega) (by omega) (by omega) (by omega)
    rw [parts, back] at read
    exact ⟨_, _, rfl, read⟩

/-- Characters are read back from their bytes, wherever these start. -/
theorem decodeFrom_flatMap (index : ℕ) (chars : List Char) :
    decodeFrom index (chars.flatMap String.utf8EncodeChar) = .ok chars := by
  induction chars generalizing index with
  | nil => rw [List.flatMap_nil, decodeFrom]
  | cons c chars ih =>
      obtain ⟨b, more, bytes, read⟩ := step_utf8EncodeChar (chars.flatMap String.utf8EncodeChar) c
      rw [List.flatMap_cons, bytes, List.cons_append, decodeFrom, read]
      simp only [Nat.add_sub_cancel, List.drop_left, ih]
      rfl

/-- A text is read back from its bytes. -/
theorem decode_encode (text : String) : decode (encode text) = .ok text := by
  rw [decode, encode, decodeFrom_flatMap]
  exact congrArg Except.ok String.ofList_toList

end TreeCluster.Text.Utf8
