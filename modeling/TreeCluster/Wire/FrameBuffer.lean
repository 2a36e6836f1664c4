import TreeCluster.Wire.Codec

/-! # Reassembling messages from a stream

A stream arrives in chunks that need not end where messages end.  A `FrameBuffer` collects them;
`next` splits the first complete message off the front, with its bytes.

The length prefixes of the front message are walked as far as they have arrived, and the walk
is resumed where it stopped (`Scan`).  A message is refused as soon as the prefixes that have
arrived force it over the limit; the buffer then stays as it is. -/

namespace TreeCluster.Wire

/-- Progress through the length prefixes of the message at the front. -/
structure Scan where
  /-- Frames that have not been passed. -/
  framesLeft : Nat
  /-- The end of the frames that have been passed. -/
  offset : Nat
  deriving DecidableEq

/-- Bytes of a stream that are not yet returned as messages. -/
structure FrameBuffer where
  buffer : Bytes
  maxFrameBytes : Nat
  scan : Option Scan
  deriving DecidableEq

namespace FrameBuffer

/-- An empty buffer with a limit on the length of messages. -/
def new (maxFrameBytes : Nat) : FrameBuffer :=
  ⟨[], maxFrameBytes, none⟩

/-- Appends bytes of the stream. -/
def extend (b : FrameBuffer) (chunk : Bytes) : FrameBuffer :=
  { b with buffer := b.buffer ++ chunk }

/-- The number of bytes that wait. -/
def pending (b : FrameBuffer) : Nat :=
  b.buffer.length

/-- Refuses a message that is known to be longer than `limit`. -/
def checkLimit (limit size : Nat) : Except CodecError Unit :=
  if size > limit then .error (.frameTooLarge size limit) else .ok ()

/-- Passes the frames whose bytes have arrived; `rest` is what follows `offset` in the `available`
bytes. -/
def walk (limit available offset : Nat) (rest : Bytes) : Nat → Except CodecError Scan
  | 0 => .ok ⟨0, offset⟩
  | framesLeft + 1 => do
    let body := offset + lengthWidth
    checkLimit limit body
    if available < body then return ⟨framesLeft + 1, offset⟩
    let length := Word.ofBig (rest.take lengthWidth)
    checkLimit limit (body + length)
    if available < body + length then return ⟨framesLeft + 1, offset⟩
    walk limit available (body + length) (rest.drop (lengthWidth + length)) framesLeft

/-- Where the walk starts: at the saved position, or after the preamble once it has arrived. -/
def startScan (b : FrameBuffer) : Except CodecError (Option Scan) := do
  match b.scan with
  | some scan => return some scan
  | none =>
    checkLimit b.maxFrameBytes preambleLength
    if b.pending < preambleLength then return none
    return some ⟨Word.ofBig ((b.buffer.drop headerLength).take lengthWidth), preambleLength⟩

/-- The position that the walk reaches, if the preamble has arrived. -/
def scanFront (b : FrameBuffer) : Except CodecError (Option Scan) := do
  match ← b.startScan with
  | none => return none
  | some start =>
    let reached ← walk b.maxFrameBytes b.pending start.offset (b.buffer.drop start.offset)
      start.framesLeft
    return some reached

/-- The next complete message with its bytes, if it has arrived, and the buffer after it. -/
def next (b : FrameBuffer) : Except CodecError (Option (Message × Bytes)) × FrameBuffer :=
  match b.scanFront with
  | .error e => (.error e, b)
  | .ok none => (.ok none, b)
  | .ok (some ⟨0, total⟩) =>
    let raw := b.buffer.take total
    let rest := { b with buffer := b.buffer.drop total, scan := none }
    match decodeShared raw with
    | .error e => (.error e, rest)
    | .ok (m, _) => (.ok (some (m, raw)), rest)
  | .ok (some scan) => (.ok none, { b with scan := some scan })

/-- Takes complete messages until there is none, or an error; at most `fuel` of them. -/
def drain (b : FrameBuffer) :
    Nat → List (Message × Bytes) × Option CodecError × FrameBuffer
  | 0 => ([], none, b)
  | fuel + 1 =>
    match b.next with
    | (.error e, b) => ([], some e, b)
    | (.ok none, b) => ([], none, b)
    | (.ok (some frame), b) =>
      let (frames, e, b) := b.drain fuel
      (frame :: frames, e, b)

/-- Takes all complete messages; each has at least a preamble. -/
def drainAll (b : FrameBuffer) : List (Message × Bytes) × Option CodecError × FrameBuffer :=
  b.drain (b.pending + 1)

end FrameBuffer
end TreeCluster.Wire
