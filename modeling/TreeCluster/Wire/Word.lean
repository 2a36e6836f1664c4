import TreeCluster.Message

/-! # Numbers as bytes

A natural number modulo `256 ^ width` as `width` bytes, the least significant byte first
(`little`) or last (`big`).  Reading gives the number back (`ofLittle_little`, `ofBig_big`), and
writing what was read gives the bytes back (`little_ofLittle`, `big_ofBig`). -/

namespace TreeCluster.Word

/-- The `width` low bytes of a number, least significant first. -/
def little : Nat → Nat → Bytes
  | 0, _ => []
  | width + 1, n => UInt8.ofNat n :: little width (n / 256)

/-- The number of which these are the bytes, least significant first. -/
def ofLittle : Bytes → Nat
  | [] => 0
  | b :: rest => b.toNat + 256 * ofLittle rest

/-- The `width` low bytes of a number, most significant first. -/
def big (width n : Nat) : Bytes :=
  (little width n).reverse

/-- The number of which these are the bytes, most significant first. -/
def ofBig (bytes : Bytes) : Nat :=
  ofLittle bytes.reverse

@[simp] theorem length_little (width n : Nat) : (little width n).length = width := by
  induction width generalizing n with
  | zero => rfl
  | succ width ih => simp [little, ih]

@[simp] theorem length_big (width n : Nat) : (big width n).length = width := by
  simp [big]

theorem ofLittle_little (width n : Nat) : ofLittle (little width n) = n % Nat.pow 256 width := by
  induction width generalizing n with
  | zero => exact (Nat.mod_one n).symm
  | succ width ih =>
    have byte : (UInt8.ofNat n).toNat = n % 256 := UInt8.toNat_ofNat'
    have step : Nat.pow 256 (width + 1) = 256 * Nat.pow 256 width := Nat.mul_comm ..
    simp only [little, ofLittle, ih, byte]
    rw [step, Nat.mod_mul]

theorem ofBig_big (width n : Nat) : ofBig (big width n) = n % Nat.pow 256 width := by
  simp [ofBig, big, ofLittle_little]

theorem little_ofLittle (bytes : Bytes) : little bytes.length (ofLittle bytes) = bytes := by
  induction bytes with
  | nil => rfl
  | cons b rest ih =>
    have low : UInt8.ofNat (b.toNat + 256 * ofLittle rest) = b := by
      apply UInt8.toNat_inj.mp
      have : b.toNat < 256 := b.toNat_lt
      rw [UInt8.toNat_ofNat']
      omega
    have high : (b.toNat + 256 * ofLittle rest) / 256 = ofLittle rest := by
      have : b.toNat < 256 := b.toNat_lt
      omega
    simp only [List.length_cons, little, ofLittle, low, high, ih]

theorem big_ofBig (bytes : Bytes) : big bytes.length (ofBig bytes) = bytes := by
  have h := little_ofLittle bytes.reverse
  rw [List.length_reverse] at h
  simp [big, ofBig, h]

/-- The bytes that a number is read from are those that are written for it. -/
theorem big_ofBig_take {width : Nat} {bytes : Bytes} (h : width ≤ bytes.length) :
    big width (ofBig (bytes.take width)) = bytes.take width := by
  have written := big_ofBig (bytes.take width)
  rwa [List.length_take_of_le h] at written

theorem ofBig_lt (bytes : Bytes) : ofBig bytes < Nat.pow 256 bytes.length := by
  have h := ofBig_big bytes.length (ofBig bytes)
  rw [big_ofBig] at h
  rw [h]
  exact Nat.mod_lt _ (Nat.pow_pos (by decide))

end TreeCluster.Word
