import TreeCluster.Proofs.Wire.Reassembly

/-! # Encoding and decoding

An encoded message is read back, with no visits, exactly if it has fewer than `2 ^ 32` frames
and each of them is short: the count and the lengths are written modulo `2 ^ 32`, so a longer
message is read as another one or not at all (`decode_encode_append_iff`).

Messages whose frames are few and short are split off again in the order in which they were
written, each with its own bytes (`messages_flatMap_encode`). -/

namespace TreeCluster.Wire

theorem foldl_length (frames : List Bytes) (start : ℕ) :
    frames.foldl (fun length frame => length + lengthWidth + frame.length) start =
      start + (frames.flatMap encodeFrame).length := by
  induction frames generalizing start with
  | nil => rfl
  | cons frame frames ih =>
      rw [List.foldl_cons, ih, List.flatMap_cons, List.length_append, length_encodeFrame]
      omega

theorem encodedLength_eq (m : Message) :
    encodedLength m = preambleLength + (m.contents.flatMap encodeFrame).length :=
  foldl_length m.contents preambleLength

theorem length_encode (m : Message) : (encode m).length = encodedLength m := by
  simp only [encodedLength_eq, encode, List.length_append, length_encodeHeader, Word.length_big,
    headerLength, lengthWidth, preambleLength]

theorem drop_encode_append (m : Message) (rest : Bytes) :
    (encode m ++ rest).drop preambleLength = m.contents.flatMap encodeFrame ++ rest := by
  have front : (encodeHeader m ++ Word.big lengthWidth m.contents.length).length =
      preambleLength := by
    rw [List.length_append, length_encodeHeader, Word.length_big]
    rfl
  rw [encode, List.append_assoc, List.drop_left' front]

/-- **Round trip with its exact boundary**: a message with any bytes behind it is read back, with
its visits forgotten, if and only if the number of its frames and their lengths are below
`2 ^ 32`.  The encoded message is as long as `encodedLength` says, also when it is appended to
other bytes, and the decoder that cuts frames out of the whole gives the same answers. -/
theorem decode_encode_append_iff (m : Message) (rest front input : Bytes) :
    (decode (encode m ++ rest) = .ok ({ m with visits := 0 }, encodedLength m) ↔
      m.contents.length < 2 ^ 32 ∧ ∀ frame ∈ m.contents, frame.length < 2 ^ 32) ∧
    (encode m).length = encodedLength m ∧
    encodeInto front m = front ++ encode m ∧
    decodeShared input = decode input := by
  refine ⟨?_, length_encode m, encodeInto_eq front m, decodeShared_eq input⟩
  rw [decode_eq_ok_iff, readPreamble_encode, drop_encode_append, encodedLength_eq]
  constructor
  · rintro ⟨-, preamble, short, -, -⟩
    have count : m.contents.length % 2 ^ 32 = m.contents.length := (Prod.mk.inj preamble).2
    refine ⟨?_, short⟩
    rw [← count]
    exact Nat.mod_lt _ (by decide)
  · rintro ⟨count, short⟩
    refine ⟨?_, ?_, short, List.prefix_append _ _, rfl⟩
    · rw [List.length_append, length_encode, encodedLength_eq]
      omega
    · rw [Nat.mod_eq_of_lt count]
      rfl

/-! ### Messages one after the other -/

/-- The number of frames and their lengths can be written in four bytes each. -/
def Fits (m : Message) : Prop :=
  m.contents.length < 2 ^ 32 ∧ Short m.contents

theorem decode_encode_append {m : Message} (fits : Fits m) (rest : Bytes) :
    decode (encode m ++ rest) = .ok ({ m with visits := 0 }, (encode m).length) := by
  obtain ⟨count, short⟩ := fits
  rw [decode_eq_ok_iff, readPreamble_encode, drop_encode_append, length_encode, encodedLength_eq]
  refine ⟨?_, ?_, short, List.prefix_append _ _, rfl⟩
  · rw [List.length_append, length_encode, encodedLength_eq]
    omega
  · rw [Nat.mod_eq_of_lt count]
    rfl

/-- What was written message by message is split into these messages. -/
theorem messages_flatMap_encode {ms : List Message} (fits : ∀ m ∈ ms, Fits m) :
    messages (ms.flatMap encode) = ms.map fun m => ({ m with visits := 0 }, encode m) := by
  induction ms with
  | nil => exact messages_of_error rfl
  | cons m ms ih =>
      obtain ⟨first, others⟩ := List.forall_mem_cons.mp fits
      rw [List.flatMap_cons, messages_of_ok (decode_encode_append first _), List.take_left,
        List.drop_left, ih others, List.map_cons]

theorem map_fst_prefix_of_messages {ms : List Message} (fits : ∀ m ∈ ms, Fits m)
    {front rest : Bytes} (stream : ms.flatMap encode = front ++ rest)
    {frames : List (Message × Bytes)} (h : frames <+: messages (front ++ rest)) :
    frames.map Prod.fst <+: ms.map fun m => { m with visits := 0 } := by
  rw [← stream, messages_flatMap_encode fits] at h
  have := h.map Prod.fst
  rwa [List.map_map] at this

end TreeCluster.Wire
