import TreeCluster.Proofs.Wire.Bounded
import TreeCluster.Proofs.Wire.RoundTrip

/-! # What was decoded, encoded again

Every byte has a reading as an action or a state, but only the byte of an action or a state is
written (`Action.byte_ofByte_iff`, `State.byte_ofByte_iff`).  These two bytes are all that decoding
forgets: the rest of the preamble and the frames are written as they were read
(`encode_eq_of_decode`), so a message that was decoded is decoded again from its encoding
(`encode_of_decode`). -/

namespace TreeCluster

theorem Action.byte_ofByte_iff (b : UInt8) : (ofByte b).byte = b ↔ ∃ a : Action, a.byte = b := by
  constructor
  · intro kept
    exact ⟨ofByte b, kept⟩
  · rintro ⟨a, rfl⟩
    rw [ofByte_byte]

theorem State.byte_ofByte_iff (b : UInt8) : (ofByte b).byte = b ↔ ∃ s : State, s.byte = b := by
  constructor
  · intro kept
    exact ⟨ofByte b, kept⟩
  · rintro ⟨s, rfl⟩
    rw [ofByte_byte]

namespace Wire

variable {input : Bytes} {m : Message} {taken : ℕ}

/-! ### The preamble -/

theorem big_time {bytes : Bytes} (arrived : 8 ≤ bytes.length) :
    Word.big 8 (UInt64.ofNat (Word.ofBig (bytes.take 8))).toInt64.toUInt64.toNat =
      bytes.take 8 := by
  have small : Word.ofBig (bytes.take 8) < 2 ^ 64 := by
    have := Word.ofBig_lt (bytes.take 8)
    rwa [List.length_take_of_le arrived] at this
  rw [UInt64.toUInt64_toInt64, UInt64.toNat_ofNat', Nat.mod_eq_of_lt small,
    Word.big_ofBig_take arrived]

theorem encode_preamble (x y : UInt8) (rest : Bytes) (arrived : preambleLength ≤ rest.length + 2) :
    encodeHeader (readPreamble (x :: y :: rest)).1 ++
        Word.big lengthWidth (readPreamble (x :: y :: rest)).2 =
      (Action.ofByte x).byte :: (State.ofByte y).byte :: rest.take 12 := by
  simp only [preambleLength] at arrived
  have time : 8 ≤ rest.length := by omega
  have count : lengthWidth ≤ (rest.drop 8).length := by
    rw [List.length_drop, lengthWidth]
    omega
  simp only [readPreamble, encodeHeader, Message.new, headerLength, List.getD_cons_zero,
    List.getD_cons_succ, List.drop_succ_cons, List.drop_zero, big_time time,
    Word.big_ofBig_take count, List.cons_append]
  rw [lengthWidth, ← List.take_add]

/-! ### Messages -/

/-- A message that was decoded can be written: its count and its lengths come from four bytes
each. -/
theorem Fits.of_decode (h : decode input = .ok (m, taken)) : Fits m := by
  obtain ⟨-, preamble, short, -, -⟩ := (decode_eq_ok_iff _ _ _).mp h
  refine ⟨?_, short⟩
  have count : (readPreamble input).2 = m.contents.length := congrArg Prod.snd preamble
  rw [← count]
  exact ofBig_take_lt _

theorem visits_of_decode (h : decode input = .ok (m, taken)) : m.visits = 0 := by
  obtain ⟨-, preamble, -, -, -⟩ := (decode_eq_ok_iff _ _ _).mp h
  exact (congrArg (fun read => read.1.visits) preamble).symm

theorem encode_eq_of_decode {x y : UInt8} {rest : Bytes}
    (h : decode (x :: y :: rest) = .ok (m, taken)) :
    encode m = (Action.ofByte x).byte :: (State.ofByte y).byte ::
      ((x :: y :: rest).take taken).drop 2 := by
  obtain ⟨arrived, preamble, -, ⟨more, frames⟩, rfl⟩ := (decode_eq_ok_iff _ _ _).mp h
  have header := encode_preamble x y rest arrived
  rw [preamble] at header
  -- what is taken is the preamble and, right behind it, the frames
  have taken : ((x :: y :: rest).take (preambleLength + (m.contents.flatMap encodeFrame).length)) =
      x :: y :: rest.take 12 ++ m.contents.flatMap encodeFrame := by
    rw [List.take_add, ← frames, List.take_left]
    rfl
  calc encode m
      = encodeHeader { m with contents := [] } ++ Word.big lengthWidth m.contents.length ++
          m.contents.flatMap encodeFrame := rfl
    _ = _ := by
      rw [header, taken]
      rfl

/-- **What was decoded is encoded as it was read, but for the bytes of action and state.**  Where
bytes are decoded, there are two of them for action and state.

* The encoding of the message is as long as what was taken, has in front the bytes of the action
  and the state that were read, and behind them what was taken, byte by byte.
* So it is the same as what was taken if and only if the first byte is that of an action and the
  second that of a state.
* It is decoded to the same message again. -/
theorem encode_of_decode (h : decode input = .ok (m, taken)) :
    ∃ x y rest, input = x :: y :: rest ∧ (encode m).length = taken ∧
      encode m = (Action.ofByte x).byte :: (State.ofByte y).byte :: (input.take taken).drop 2 ∧
      (encode m = input.take taken ↔
        (Action.ofByte x).byte = x ∧ (State.ofByte y).byte = y) ∧
      ((Action.ofByte x).byte = x ↔ ∃ a : Action, a.byte = x) ∧
      ((State.ofByte y).byte = y ↔ ∃ s : State, s.byte = y) ∧
      decode (encode m) = .ok (m, taken) := by
  obtain ⟨least, most⟩ := decode_bounds h
  simp only [preambleLength] at least
  have long := least.trans most
  obtain ⟨x, y, rest, rfl⟩ : ∃ x y rest, input = x :: y :: rest := by
    rcases input with _ | ⟨x, _ | ⟨y, rest⟩⟩
    · simp at long
    · simp at long
    · exact ⟨x, y, rest, rfl⟩
  have length : (encode m).length = taken := (length_encode m).trans (encodedLength_of_decode h)
  have written := encode_eq_of_decode h
  refine ⟨x, y, rest, rfl, length, written, ?_, Action.byte_ofByte_iff x,
    State.byte_ofByte_iff y, ?_⟩
  · obtain ⟨more, rfl⟩ : ∃ more, taken = more + 2 := ⟨taken - 2, by omega⟩
    rw [written, List.take_succ_cons, List.take_succ_cons]
    simp
  · have unvisited : { m with visits := 0 } = m := by rw [← visits_of_decode h]
    have again := decode_encode_append (.of_decode h) []
    rwa [List.append_nil, unvisited, length] at again

/-- A message of an unknown action and a known state, with one frame and bytes behind it. -/
theorem encode_of_decode_of_unknown_action :
    let input : Bytes := [0, 3, 0, 0, 0, 0, 0, 0, 0, 7, 0, 0, 0, 1, 0, 0, 0, 2, 8, 9, 5]
    let m : Message := ⟨.undefined, .succeed, 7, [[8, 9]], 0⟩
    decode input = .ok (m, 20) ∧
      encode m = [1, 3, 0, 0, 0, 0, 0, 0, 0, 7, 0, 0, 0, 1, 0, 0, 0, 2, 8, 9] ∧
      encode m ≠ input.take 20 ∧ decode (encode m) = .ok (m, 20) := by
  intro input m
  have h : decode input = .ok (m, 20) := by decide +kernel
  obtain ⟨x, y, rest, same, -, written, canonical, action, -, again⟩ := encode_of_decode h
  obtain ⟨rfl, rfl, rfl⟩ : x = 0 ∧ y = 3 ∧ rest = input.drop 2 := by
    simpa [input, eq_comm] using same
  exact ⟨h, written, fun kept => absurd (canonical.mp kept).1 (by decide), again⟩

end Wire
end TreeCluster
