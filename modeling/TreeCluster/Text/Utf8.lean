/-! # UTF-8

`encode` writes a text as bytes.  `step` looks at the front of a byte string: a character, an
ill-formed stretch, or a character that the input cuts off.  `decode` refuses the first fault
and says where it is; `lossy` writes the replacement character for each. -/

namespace TreeCluster.Text.Utf8

/-- The UTF-8 bytes of a text. -/
def encode (text : String) : List UInt8 :=
  text.toList.flatMap String.utf8EncodeChar

/-- A byte that continues a character. -/
def isTail (b : UInt8) : Bool :=
  0x80 ≤ b && b ≤ 0xBF

/-- What a first byte announces: how many bytes follow, and the range of the next one. -/
def lead (b : UInt8) : Option (Nat × UInt8 × UInt8) :=
  if b ≤ 0x7F then some (0, 0x80, 0xBF)
  else if b < 0xC2 then none
  else if b ≤ 0xDF then some (1, 0x80, 0xBF)
  else if b = 0xE0 then some (2, 0xA0, 0xBF)
  else if b = 0xED then some (2, 0x80, 0x9F)
  else if b ≤ 0xEF then some (2, 0x80, 0xBF)
  else if b = 0xF0 then some (3, 0x90, 0xBF)
  else if b ≤ 0xF3 then some (3, 0x80, 0xBF)
  else if b = 0xF4 then some (3, 0x80, 0x8F)
  else none

/-- The payload bits of a continuing byte. -/
def tailBits (b : UInt8) : Nat :=
  b.toNat % 64

/-- What stands at the front of a byte string. -/
inductive Front where
  /-- A character and the bytes it takes. -/
  | char (c : Char) (width : Nat)
  /-- This many bytes belong to no character. -/
  | illFormed (width : Nat)
  /-- The input ends inside a character. -/
  | cutOff

/-- The front of `b :: rest`. -/
def step (b : UInt8) (rest : List UInt8) : Front :=
  match lead b with
  | none => .illFormed 1
  | some (0, _, _) => .char (Char.ofNat b.toNat) 1
  | some (more, low, high) =>
    match rest with
    | [] => .cutOff
    | b₁ :: rest₁ =>
      if b₁ < low ∨ high < b₁ then .illFormed 1
      else if more = 1 then .char (Char.ofNat ((b.toNat % 32) * 64 + tailBits b₁)) 2
      else
        match rest₁ with
        | [] => .cutOff
        | b₂ :: rest₂ =>
          if !isTail b₂ then .illFormed 2
          else if more = 2 then
            .char (Char.ofNat (((b.toNat % 16) * 64 + tailBits b₁) * 64 + tailBits b₂)) 3
          else
            match rest₂ with
            | [] => .cutOff
            | b₃ :: _ =>
              if !isTail b₃ then .illFormed 3
              else
                .char (Char.ofNat
                  ((((b.toNat % 8) * 64 + tailBits b₁) * 64 + tailBits b₂) * 64 + tailBits b₃)) 4

/-- Where and how a byte string fails to be UTF-8. -/
structure Fault where
  /-- The bytes before the fault are well formed. -/
  validUpTo : Nat
  /-- The length of the ill-formed stretch, `none` where the input ends inside a character. -/
  width : Option Nat
  deriving DecidableEq

/-- The sentence that describes a fault. -/
def Fault.message (f : Fault) : String :=
  match f.width with
  | some w => s!"invalid utf-8 sequence of {w} bytes from index {f.validUpTo}"
  | none => s!"incomplete utf-8 byte sequence from index {f.validUpTo}"

/-- Reads bytes that start at `index` of the whole input. -/
def decodeFrom (index : Nat) : List UInt8 → Except Fault (List Char)
  | [] => .ok []
  | b :: rest =>
    match step b rest with
    | .char c width => (decodeFrom (index + width) (rest.drop (width - 1))).map (c :: ·)
    | .illFormed width => .error ⟨index, some width⟩
    | .cutOff => .error ⟨index, none⟩
termination_by bytes => bytes.length
decreasing_by simp only [List.length_drop, List.length_cons]; omega

/-- The text that the bytes encode, or the first fault. -/
def decode (bytes : List UInt8) : Except Fault String :=
  (decodeFrom 0 bytes).map String.ofList

/-- The characters of the bytes, with U+FFFD for each ill-formed stretch and for a cut-off end. -/
def lossyChars : List UInt8 → List Char
  | [] => []
  | b :: rest =>
    match step b rest with
    | .char c width => c :: lossyChars (rest.drop (width - 1))
    | .illFormed width => '\uFFFD' :: lossyChars (rest.drop (width - 1))
    | .cutOff => ['\uFFFD']
termination_by bytes => bytes.length
decreasing_by all_goals simp only [List.length_drop, List.length_cons]; omega

/-- The text of the bytes, with the replacement character wherever they are not UTF-8. -/
def lossy (bytes : List UInt8) : String :=
  String.ofList (lossyChars bytes)

end TreeCluster.Text.Utf8
