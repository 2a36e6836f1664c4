import TreeCluster.Address
import TreeCluster.Message
import TreeCluster.Wire.Error
import TreeCluster.Wire.Word

/-! # Typed values as bytes

A `Layout` writes the values of a type without gaps and reads them back from the front of a byte
string.  Numbers are little-endian of fixed width, lengths take eight bytes, the index of a
variant four, and a Boolean or the tag of an optional value one. -/

namespace TreeCluster

open Text

/-- How the values of a type are written and read. -/
class Layout (α : Type) where
  write : α → Bytes
  read : Bytes → Except LayoutError (α × Bytes)

namespace Layout

/-- Reads a number of `width` bytes. -/
def readWord (width : Nat) (input : Bytes) : Except LayoutError (Nat × Bytes) :=
  if input.length < width then .error .cutOff
  else .ok (Word.ofLittle (input.take width), input.drop width)

instance : Layout UInt8 where
  write n := [n]
  read input := (readWord 1 input).map fun (n, rest) => (UInt8.ofNat n, rest)

instance : Layout UInt16 where
  write n := Word.little 2 n.toNat
  read input := (readWord 2 input).map fun (n, rest) => (UInt16.ofNat n, rest)

instance : Layout Int32 where
  write n := Word.little 4 n.toUInt32.toNat
  read input := (readWord 4 input).map fun (n, rest) => ((UInt32.ofNat n).toInt32, rest)

instance : Layout Int64 where
  write n := Word.little 8 n.toUInt64.toNat
  read input := (readWord 8 input).map fun (n, rest) => ((UInt64.ofNat n).toInt64, rest)

instance : Layout Bool where
  write b := [if b then 1 else 0]
  read
    | [] => .error .cutOff
    | b :: rest =>
      if b = 0 then .ok (false, rest)
      else if b = 1 then .ok (true, rest)
      else .error (.invalidBool b)

instance [Layout α] : Layout (Option α) where
  write
    | none => [0]
    | some a => 1 :: write a
  read
    | [] => .error .cutOff
    | b :: rest =>
      if b = 0 then .ok (none, rest)
      else if b = 1 then (read rest).map fun (a, rest) => (some a, rest)
      else .error (.invalidOption b)

instance [Layout α] [Layout β] : Layout (α × β) where
  write := fun (a, b) => write a ++ write b
  read input := do
    let (a, input) ← read input
    let (b, input) ← read input
    return ((a, b), input)

/-- A text is its length in bytes and its UTF-8 bytes. -/
instance : Layout String where
  write s :=
    let bytes := Utf8.encode s
    Word.little 8 bytes.length ++ bytes
  read input := do
    let (length, rest) ← readWord 8 input
    if rest.length < length then throw .stringCutOff
    match Utf8.decode (rest.take length) with
    | .ok s => return (s, rest.drop length)
    | .error fault => throw (.invalidText fault)

/-- Reads `count` values. -/
def readMany [Layout α] (input : Bytes) : Nat → Except LayoutError (List α × Bytes)
  | 0 => .ok ([], input)
  | count + 1 => do
    let (a, rest) ← read input
    let (as, rest) ← readMany rest count
    return (a :: as, rest)

/-- A list is its length and its items. -/
instance [Layout α] : Layout (List α) where
  write as := Word.little 8 as.length ++ as.flatMap write
  read input := do
    let (count, rest) ← readWord 8 input
    readMany rest count

/-- Writes the index of a variant. -/
def writeVariant (index : Nat) : Bytes :=
  Word.little 4 index

/-- Reads the index of a variant of a type with `count` of them. -/
def readVariant (count : Nat) (input : Bytes) : Except LayoutError (Nat × Bytes) := do
  let (index, rest) ← readWord 4 input
  if index < count then return (index, rest) else throw (.invalidVariant index count)

/-- The layout of a type of plain variants, numbered in the order of `all`. -/
abbrev variants [DecidableEq α] [Inhabited α] (all : List α) : Layout α where
  write a := writeVariant (all.idxOf a)
  read input := (readVariant all.length input).map fun (index, rest) =>
    (all.getD index default, rest)

/-- The value at the front of a body; bytes after it are ignored. -/
def decode [Layout α] (body : Bytes) : Except LayoutError α :=
  (read body).map Prod.fst

instance : Layout NodeAddress where
  write a := write (a.name, a.host, a.port)
  read input := (read input).map fun ((name, host, port), rest) => (⟨name, host, port⟩, rest)

instance : Layout Action :=
  variants Action.all

instance : Layout State :=
  variants State.all

end Layout
end TreeCluster
