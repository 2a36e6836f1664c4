import TreeCluster.Wire.Word

/-! # SipHash-2-4

The keyed 64-bit hash of a byte string: two rounds for each word of eight bytes, the last of
which ends in the length, and four rounds at the end. -/

namespace TreeCluster.SipHash

/-- The four words of the state. -/
structure State where
  v₀ : UInt64
  v₁ : UInt64
  v₂ : UInt64
  v₃ : UInt64

/-- Rotates a word to the left by `n` bits, `0 < n < 64`. -/
def rotate (x : UInt64) (n : UInt64) : UInt64 :=
  (x <<< n) ||| (x >>> (64 - n))

/-- One round. -/
def State.round (s : State) : State :=
  let v₀ := s.v₀ + s.v₁
  let v₁ := rotate s.v₁ 13 ^^^ v₀
  let v₀ := rotate v₀ 32
  let v₂ := s.v₂ + s.v₃
  let v₃ := rotate s.v₃ 16 ^^^ v₂
  let v₀ := v₀ + v₃
  let v₃ := rotate v₃ 21 ^^^ v₀
  let v₂ := v₂ + v₁
  let v₁ := rotate v₁ 17 ^^^ v₂
  let v₂ := rotate v₂ 32
  ⟨v₀, v₁, v₂, v₃⟩

/-- The state before the first word. -/
def State.start (key₀ key₁ : UInt64) : State :=
  ⟨key₀ ^^^ 0x736f6d6570736575, key₁ ^^^ 0x646f72616e646f6d, key₀ ^^^ 0x6c7967656e657261,
    key₁ ^^^ 0x7465646279746573⟩

/-- Takes in one word. -/
def State.absorb (s : State) (word : UInt64) : State :=
  let s := { s with v₃ := s.v₃ ^^^ word }
  let s := s.round.round
  { s with v₀ := s.v₀ ^^^ word }

/-- The hash that the state ends in. -/
def State.finish (s : State) : UInt64 :=
  let s := { s with v₂ := s.v₂ ^^^ 0xff }
  let s := s.round.round.round.round
  s.v₀ ^^^ s.v₁ ^^^ s.v₂ ^^^ s.v₃

/-- Takes in the bytes word by word; the last word holds what is left and the length. -/
def State.absorbAll (s : State) (length : Nat) : Bytes → State
  | b₀ :: b₁ :: b₂ :: b₃ :: b₄ :: b₅ :: b₆ :: b₇ :: rest =>
    (s.absorb (UInt64.ofNat (Word.ofLittle [b₀, b₁, b₂, b₃, b₄, b₅, b₆, b₇]))).absorbAll length rest
  | last => s.absorb (UInt64.ofNat (Word.ofLittle last + length % 256 * 0x100000000000000))

/-- The hash of a byte string under a key of two words. -/
def hash (key₀ key₁ : UInt64) (bytes : Bytes) : UInt64 :=
  ((State.start key₀ key₁).absorbAll bytes.length bytes).finish

end TreeCluster.SipHash
