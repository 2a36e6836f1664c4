import TreeCluster.Wire.Error
import TreeCluster.Wire.Word

/-! # Messages on the wire

An encoded message is one byte each for action and state, eight for the time, four for the
number of content frames, and then for each frame four bytes of length and its bytes; numbers
are big-endian.  The visit count does not travel.

`decode` takes one message off the front of a byte string and says how many bytes it took, or
how many bytes it needs at least.  `decodeShared` computes where the frames lie and then cuts
them out of the whole. -/

namespace TreeCluster.Wire

/-- The length of action, state and time. -/
def headerLength : Nat := 10

/-- The length of the header with the frame count: what every message takes at least. -/
def preambleLength : Nat := 14

/-- The length of a frame's length. -/
def lengthWidth : Nat := 4

/-- The longest message that is accepted unless another limit is set. -/
def defaultMaxFrameBytes : Nat := 16 * 1024 * 1024

/-- The number of bytes of the encoded message. -/
def encodedLength (m : Message) : Nat :=
  m.contents.foldl (fun length frame => length + lengthWidth + frame.length) preambleLength

/-- The action, the state and the time. -/
def encodeHeader (m : Message) : Bytes :=
  m.action.byte :: m.state.byte :: Word.big 8 m.time.toUInt64.toNat

/-- One frame behind its length. -/
def encodeFrame (frame : Bytes) : Bytes :=
  Word.big lengthWidth frame.length ++ frame

/-- The encoded message. -/
def encode (m : Message) : Bytes :=
  encodeHeader m ++ Word.big lengthWidth m.contents.length ++ m.contents.flatMap encodeFrame

/-- The bytes of `front` with the encoded message after them. -/
def encodeInto (front : Bytes) (m : Message) : Bytes :=
  m.contents.foldl (fun out frame => out ++ encodeFrame frame)
    (front ++ encodeHeader m ++ Word.big lengthWidth m.contents.length)

theorem foldl_encodeFrame (out : Bytes) (frames : List Bytes) :
    frames.foldl (fun out frame => out ++ encodeFrame frame) out =
      out ++ frames.flatMap encodeFrame := by
  induction frames generalizing out with
  | nil => simp
  | cons frame rest ih => simp [ih]

theorem encodeInto_eq (front : Bytes) (m : Message) : encodeInto front m = front ++ encode m := by
  simp only [encodeInto, encode, foldl_encodeFrame, List.append_assoc]

/-- The message header at the front of `input`, and the number of its frames. -/
def readPreamble (input : Bytes) : Message × Nat :=
  let action := Action.ofByte (input.getD 0 0)
  let state := State.ofByte (input.getD 1 0)
  let time := (UInt64.ofNat (Word.ofBig ((input.drop 2).take 8))).toInt64
  (Message.new action state time, Word.ofBig ((input.drop headerLength).take lengthWidth))

/-- Takes `count` frames off `rest`, which starts at `offset` of an input of `available` bytes:
the frames and the offset after them. -/
def decodeFrames (available offset : Nat) (rest : Bytes) : Nat → Except CodecError (List Bytes × Nat)
  | 0 => .ok ([], offset)
  | count + 1 =>
    let body := offset + lengthWidth
    if available < body then .error (.incomplete body available)
    else
      let length := Word.ofBig (rest.take lengthWidth)
      let rest := rest.drop lengthWidth
      if available < body + length then .error (.incomplete (body + length) available)
      else
        (decodeFrames available (body + length) (rest.drop length) count).map
          fun (frames, stop) => (rest.take length :: frames, stop)

/-- The message at the front of `input` and the number of bytes it takes. -/
def decode (input : Bytes) : Except CodecError (Message × Nat) :=
  let available := input.length
  if available < preambleLength then .error (.incomplete preambleLength available)
  else
    let (header, count) := readPreamble input
    (decodeFrames available preambleLength (input.drop preambleLength) count).map
      fun (frames, stop) => ({ header with contents := frames }, stop)

/-- Where the next `count` frames lie in `input`, as pairs of start and stop, from `offset` on,
and the offset after them. -/
def frameExtents (input : Bytes) (offset : Nat) : Nat → Except CodecError (List (Nat × Nat) × Nat)
  | 0 => .ok ([], offset)
  | count + 1 =>
    let start := offset + lengthWidth
    if input.length < start then .error (.incomplete start input.length)
    else
      let stop := start + Word.ofBig ((input.drop offset).take lengthWidth)
      if input.length < stop then .error (.incomplete stop input.length)
      else (frameExtents input stop count).map fun (extents, last) => ((start, stop) :: extents, last)

/-- The same as `decode`, with the frames cut out of the whole input. -/
def decodeShared (input : Bytes) : Except CodecError (Message × Nat) :=
  if input.length < preambleLength then .error (.incomplete preambleLength input.length)
  else
    let (header, count) := readPreamble input
    (frameExtents input preambleLength count).map fun (extents, stop) =>
      let cut : Nat × Nat → Bytes := fun (start, stop) => (input.drop start).take (stop - start)
      ({ header with contents := extents.map cut }, stop)

end TreeCluster.Wire
