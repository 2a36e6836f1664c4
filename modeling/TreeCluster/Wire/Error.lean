import TreeCluster.Text.Utf8
import TreeCluster.Text.Decimal

/-! # Why bytes are refused

A typed value may fail to be read from the body of a command (`LayoutError`).  A frame may need
more bytes than there are, or be longer than allowed (`CodecError`). -/

namespace TreeCluster

open Text

/-- Why bytes are no value of a type. -/
inductive LayoutError where
  /-- The bytes end inside a number. -/
  | cutOff
  /-- The announced length of a string passes the end. -/
  | stringCutOff
  | invalidText (fault : Utf8.Fault)
  | invalidBool (byte : UInt8)
  | invalidOption (byte : UInt8)
  /-- The index of a variant that the type, with `count` of them, does not have. -/
  | invalidVariant (index count : Nat)
  deriving DecidableEq

/-- The sentence that reports the error. -/
def LayoutError.message : LayoutError → String
  | .cutOff => "io error: unexpected end of file"
  | .stringCutOff => "io error: "
  | .invalidText fault => "string is not valid utf8: " ++ fault.message
  | .invalidBool byte =>
    "invalid u8 while decoding bool, expected 0 or 1, found " ++ Decimal.text byte.toNat
  | .invalidOption byte => "tag for enum is not valid, found " ++ Decimal.text byte.toNat
  | .invalidVariant index count =>
    "invalid value: integer `" ++ Decimal.text index ++ "`, expected variant index 0 <= i < " ++
      Decimal.text count

/-- Why a frame is refused. -/
inductive CodecError where
  /-- The bytes end before the declared length; more of them may complete the frame. -/
  | incomplete (needed available : Nat)
  | frameTooLarge (size limit : Nat)
  | body (cause : LayoutError)
  deriving DecidableEq

namespace CodecError

/-- Whether more bytes could turn the error into a frame. -/
def isIncomplete : CodecError → Bool
  | incomplete _ _ => true
  | _ => false

/-- The sentence that reports the error. -/
def message : CodecError → String
  | incomplete needed available =>
    "incomplete frame: need " ++ Decimal.text needed ++ " bytes, have " ++ Decimal.text available
  | frameTooLarge size limit =>
    "frame of " ++ Decimal.text size ++ " bytes exceeds limit of " ++ Decimal.text limit
  | body cause => "body decode failed: " ++ cause.message

end CodecError
end TreeCluster
