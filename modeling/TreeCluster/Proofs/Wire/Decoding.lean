import Mathlib
import TreeCluster.Wire.Codec

/-! # What the decoder accepts

A frame can be read back if its length fits into the four bytes before it (`Short`).  The frames
that `decodeFrames` returns are short, and their encodings are what stands at the front of its
input; conversely it returns every list of short frames of the right number whose encodings
stand there (`decodeFrames_eq_ok_iff`).  So `decode` accepts exactly the byte strings that start
with a preamble and the encodings of as many short frames as the preamble announces
(`decode_eq_ok_iff`).  What it accepts depends on no byte after the message
(`decode_take_append`).  `decodeShared` is the same function (`decodeShared_eq`). -/

namespace TreeCluster.Wire

/-- Every frame has a length below `2 ^ 32`. -/
def Short (frames : List Bytes) : Prop := ∀ frame ∈ frames, frame.length < 2 ^ 32

@[simp] theorem length_encodeFrame (frame : Bytes) :
    (encodeFrame frame).length = lengthWidth + frame.length := by
  simp [encodeFrame]

@[simp] theorem length_encodeHeader (m : Message) : (encodeHeader m).length = headerLength := by
  simp [encodeHeader, headerLength]

theorem ofBig_length (n : ℕ) : Word.ofBig (Word.big lengthWidth n) = n % 2 ^ 32 :=
  Word.ofBig_big _ _

theorem ofBig_take_lt (bytes : Bytes) : Word.ofBig (bytes.take lengthWidth) < 2 ^ 32 := by
  have width : 256 ^ (bytes.take lengthWidth).length ≤ 256 ^ lengthWidth :=
    Nat.pow_le_pow_right (by decide) (List.length_take_le _ _)
  exact (Word.ofBig_lt _).trans_le width

theorem map_cons_eq_ok_iff {ε α β : Type} {x : Except ε (List α × β)} {a : α} {l : List α} {b : β} :
    (x.map fun (tail, b) => (a :: tail, b)) = .ok (l, b) ↔
      ∃ tail, l = a :: tail ∧ x = .ok (tail, b) := by
  cases x with
  | error e => simp [Except.map]
  | ok r =>
      obtain ⟨tail, b'⟩ := r
      simp only [Except.map, Except.ok.injEq, Prod.mk.injEq]
      constructor
      · rintro ⟨rfl, rfl⟩
        exact ⟨tail, rfl, rfl, rfl⟩
      · rintro ⟨_, rfl, rfl, rfl⟩
        exact ⟨rfl, rfl⟩

/-! ### Frames -/

theorem decodeFrames_encodeFrame {frame : Bytes} (short : frame.length < 2 ^ 32) (rest : Bytes)
    (available offset count : ℕ) (h : offset + (encodeFrame frame).length ≤ available) :
    decodeFrames available offset (encodeFrame frame ++ rest) (count + 1) =
      (decodeFrames available (offset + (encodeFrame frame).length) rest count).map
        fun (frames, stop) => (frame :: frames, stop) := by
  have length : Word.ofBig ((encodeFrame frame ++ rest).take lengthWidth) = frame.length := by
    simp only [encodeFrame, List.append_assoc]
    rw [List.take_left' (Word.length_big _ _), ofBig_length, Nat.mod_eq_of_lt short]
  have after : (encodeFrame frame ++ rest).drop lengthWidth = frame ++ rest := by
    simp [encodeFrame]
  rw [length_encodeFrame] at h ⊢
  simp only [decodeFrames, length, after]
  rw [if_neg (by omega), if_neg (by omega)]
  simp [Nat.add_assoc]

/-- Where the bytes of a frame have arrived, the input starts with the encoding of a short
frame. -/
theorem exists_encodeFrame {rest : Bytes} (h : lengthWidth ≤ rest.length)
    (h' : lengthWidth + Word.ofBig (rest.take lengthWidth) ≤ rest.length) :
    ∃ frame more, rest = encodeFrame frame ++ more ∧ frame.length < 2 ^ 32 ∧
      frame.length = Word.ofBig (rest.take lengthWidth) := by
  set length := Word.ofBig (rest.take lengthWidth) with hl
  have front : Word.big lengthWidth length = rest.take lengthWidth := Word.big_ofBig_take h
  have frame : ((rest.drop lengthWidth).take length).length = length := by
    simp only [List.length_take, List.length_drop]
    omega
  refine ⟨(rest.drop lengthWidth).take length, (rest.drop lengthWidth).drop length, ?_, ?_, frame⟩
  · rw [encodeFrame, frame, front, List.append_assoc, List.take_append_drop,
      List.take_append_drop]
  · rw [frame]
    exact ofBig_take_lt rest

theorem decodeFrames_flatMap {frames : List Bytes} (short : Short frames) (rest : Bytes)
    (available offset : ℕ) (h : offset + (frames.flatMap encodeFrame).length ≤ available) :
    decodeFrames available offset (frames.flatMap encodeFrame ++ rest) frames.length =
      .ok (frames, offset + (frames.flatMap encodeFrame).length) := by
  induction frames generalizing offset with
  | nil => rfl
  | cons frame frames ih =>
      obtain ⟨first, others⟩ := List.forall_mem_cons.mp short
      rw [List.flatMap_cons, List.length_append, ← Nat.add_assoc] at h
      rw [List.flatMap_cons, List.length_append, ← Nat.add_assoc, List.append_assoc,
        List.length_cons, decodeFrames_encodeFrame first _ _ _ _ (by omega),
        ih others _ h]
      rfl

/-- What the decoder returns stands encoded at the front of its input. -/
theorem exists_of_decodeFrames {count offset : ℕ} {rest : Bytes} {frames : List Bytes} {stop : ℕ}
    (h : decodeFrames (offset + rest.length) offset rest count = .ok (frames, stop)) :
    frames.length = count ∧ Short frames ∧ frames.flatMap encodeFrame <+: rest ∧
      stop = offset + (frames.flatMap encodeFrame).length := by
  induction count generalizing offset rest frames stop with
  | zero =>
      simp only [decodeFrames, Except.ok.injEq, Prod.mk.injEq] at h
      obtain ⟨rfl, rfl⟩ := h
      exact ⟨rfl, by simp [Short], List.nil_prefix, rfl⟩
  | succ count ih =>
      by_cases arrived : lengthWidth + Word.ofBig (rest.take lengthWidth) ≤ rest.length
      · obtain ⟨frame, more, rfl, short, -⟩ := exists_encodeFrame (by omega) arrived
        have sum : offset + (encodeFrame frame ++ more).length =
            offset + (encodeFrame frame).length + more.length := by
          rw [List.length_append, Nat.add_assoc]
        rw [decodeFrames_encodeFrame short more _ _ _ (by omega), sum, map_cons_eq_ok_iff] at h
        obtain ⟨tail, rfl, h⟩ := h
        obtain ⟨hl, hs, hp, rfl⟩ := ih h
        refine ⟨by rw [List.length_cons, hl], List.forall_mem_cons.mpr ⟨short, hs⟩, ?_, ?_⟩
        · exact (List.prefix_append_right_inj _).mpr hp
        · rw [List.flatMap_cons, List.length_append, Nat.add_assoc]
      · simp only [decodeFrames] at h
        split_ifs at h with h₁ h₂
        omega

/-- The decoder takes exactly the encodings of short frames. -/
theorem decodeFrames_eq_ok_iff (count offset : ℕ) (rest : Bytes) (frames : List Bytes) (stop : ℕ) :
    decodeFrames (offset + rest.length) offset rest count = .ok (frames, stop) ↔
      frames.length = count ∧ Short frames ∧ frames.flatMap encodeFrame <+: rest ∧
        stop = offset + (frames.flatMap encodeFrame).length := by
  constructor
  · exact exists_of_decodeFrames
  · rintro ⟨rfl, short, ⟨more, rfl⟩, rfl⟩
    rw [decodeFrames_flatMap short _ _ _ (by rw [List.length_append]; omega)]

/-! ### Messages -/

theorem readPreamble_append {input : Bytes} (h : preambleLength ≤ input.length) (rest : Bytes) :
    readPreamble (input ++ rest) = readPreamble input := by
  simp only [preambleLength] at h
  have header : ∀ i, i < 14 → (input ++ rest).getD i 0 = input.getD i 0 := by
    intro i hi
    simp only [List.getD_eq_getElem?_getD]
    rw [List.getElem?_append_left (by omega)]
  have cut : ∀ i n, i + n ≤ 14 → ((input ++ rest).drop i).take n = (input.drop i).take n := by
    intro i n hn
    rw [List.drop_append_of_le_length (by omega), List.take_append_of_le_length]
    rw [List.length_drop]
    omega
  simp only [readPreamble, headerLength, lengthWidth]
  rw [header 0 (by omega), header 1 (by omega), cut 2 8 (by omega), cut 10 4 (by omega)]

theorem readPreamble_encode (m : Message) (rest : Bytes) :
    readPreamble (encode m ++ rest) =
      (Message.new m.action m.state m.time, m.contents.length % 2 ^ 32) := by
  set more := m.contents.flatMap encodeFrame ++ rest with hm
  set time := Word.big 8 m.time.toUInt64.toNat with ht
  have split : encode m ++ rest =
      m.action.byte :: m.state.byte ::
        (time ++ (Word.big lengthWidth m.contents.length ++ more)) := by
    simp [encode, encodeHeader, hm, ht]
  have length : time.length = 8 := Word.length_big _ _
  have nanos : (UInt64.ofNat (Word.ofBig time)).toInt64 = m.time := by
    have small : m.time.toUInt64.toNat < Nat.pow 256 8 := m.time.toUInt64.toNat_lt
    rw [ht, Word.ofBig_big, Nat.mod_eq_of_lt small]
    simp
  have front : (time ++ (Word.big lengthWidth m.contents.length ++ more)).take 8 = time :=
    List.take_left' length
  have back : (time ++ (Word.big lengthWidth m.contents.length ++ more)).drop 8 =
      Word.big lengthWidth m.contents.length ++ more :=
    List.drop_left' length
  have count : (Word.big lengthWidth m.contents.length ++ more).take lengthWidth =
      Word.big lengthWidth m.contents.length :=
    List.take_left' (Word.length_big _ _)
  simp only [readPreamble, split, headerLength, List.getD_cons_zero, List.getD_cons_succ,
    List.drop_succ_cons, List.drop_zero, Action.ofByte_byte, State.ofByte_byte]
  rw [front, nanos, back, count, ofBig_length]

theorem decode_of_arrived {input : Bytes} (h : preambleLength ≤ input.length) :
    decode input =
      (decodeFrames (preambleLength + (input.drop preambleLength).length) preambleLength
        (input.drop preambleLength) (readPreamble input).2).map
        fun (frames, stop) => ({ (readPreamble input).1 with contents := frames }, stop) := by
  have available : preambleLength + (input.drop preambleLength).length = input.length := by
    rw [List.length_drop]
    omega
  rw [available]
  exact if_neg (Nat.not_lt.mpr h)

/-- A message is accepted exactly if its frames stand behind a preamble that announces it. -/
theorem decode_eq_ok_iff (input : Bytes) (m : Message) (taken : ℕ) :
    decode input = .ok (m, taken) ↔
      preambleLength ≤ input.length ∧
        readPreamble input = ({ m with contents := [] }, m.contents.length) ∧
        Short m.contents ∧ m.contents.flatMap encodeFrame <+: input.drop preambleLength ∧
        taken = preambleLength + (m.contents.flatMap encodeFrame).length := by
  by_cases arrived : preambleLength ≤ input.length
  · rw [decode_of_arrived arrived]
    constructor
    · intro h
      cases hd : decodeFrames (preambleLength + (input.drop preambleLength).length) preambleLength
          (input.drop preambleLength) (readPreamble input).2 with
      | error e => rw [hd] at h; cases h
      | ok r =>
          obtain ⟨frames, stop⟩ := r
          rw [hd] at h
          obtain ⟨rfl, rfl⟩ := Prod.mk.inj (Except.ok.inj h)
          obtain ⟨count, short, front, stop⟩ := exists_of_decodeFrames hd
          exact ⟨arrived, Prod.ext rfl count.symm, short, front, stop⟩
    · rintro ⟨-, preamble, frames⟩
      rw [preamble, (decodeFrames_eq_ok_iff _ _ _ m.contents taken).mpr ⟨rfl, frames⟩]
      rfl
  · have refused : decode input = .error (.incomplete preambleLength input.length) :=
      if_pos (Nat.not_le.mp arrived)
    simp [refused, arrived]

theorem decode_bounds {input : Bytes} {m : Message} {taken : ℕ}
    (h : decode input = .ok (m, taken)) :
    preambleLength ≤ taken ∧ taken ≤ input.length := by
  obtain ⟨arrived, -, -, front, rfl⟩ := (decode_eq_ok_iff _ _ _).mp h
  have := front.length_le
  rw [List.length_drop] at this
  omega

/-- What is accepted does not depend on the bytes behind it. -/
theorem decode_take_append {input : Bytes} {m : Message} {taken : ℕ}
    (h : decode input = .ok (m, taken)) (rest : Bytes) :
    decode (input.take taken ++ rest) = .ok (m, taken) := by
  obtain ⟨least, most⟩ := decode_bounds h
  obtain ⟨arrived, preamble, short, front, stop⟩ := (decode_eq_ok_iff _ _ _).mp h
  have length : (input.take taken).length = taken := by
    rw [List.length_take]
    omega
  refine (decode_eq_ok_iff _ _ _).mpr ⟨?_, ?_, short, ?_, stop⟩
  · rw [List.length_append, length]
    omega
  · rw [readPreamble_append (by omega), ← preamble]
    conv_rhs => rw [← List.take_append_drop taken input]
    rw [readPreamble_append (by omega)]
  · rw [List.drop_append_of_le_length (by omega)]
    refine List.IsPrefix.trans ?_ (List.prefix_append _ _)
    rw [List.drop_take]
    exact List.prefix_take_iff.mpr ⟨front, by omega⟩

/-- What is accepted stays accepted when more bytes arrive. -/
theorem decode_append {input : Bytes} {m : Message} {taken : ℕ}
    (h : decode input = .ok (m, taken)) (more : Bytes) :
    decode (input ++ more) = .ok (m, taken) := by
  have := decode_take_append h (input.drop taken ++ more)
  rwa [← List.append_assoc, List.take_append_drop] at this

/-! ### Frames cut out of the whole -/

theorem decodeFrames_eq_frameExtents (input : Bytes) (count offset : ℕ) :
    decodeFrames input.length offset (input.drop offset) count =
      (frameExtents input offset count).map fun (extents, stop) =>
        (extents.map fun (start, stop) => (input.drop start).take (stop - start), stop) := by
  induction count generalizing offset with
  | zero => rfl
  | succ count ih =>
      simp only [decodeFrames, frameExtents, List.drop_drop]
      split_ifs with h₁ h₂
      · rfl
      · rfl
      · rw [ih]
        cases frameExtents input _ count with
        | error e => rfl
        | ok r => simp [Except.map]

/-- Both decoders give the same answer on every input. -/
theorem decodeShared_eq (input : Bytes) : decodeShared input = decode input := by
  by_cases arrived : input.length < preambleLength
  · rw [decodeShared, decode, if_pos arrived, if_pos arrived]
  · rw [decodeShared, decode, if_neg arrived, if_neg arrived]
    obtain ⟨header, count⟩ := readPreamble input
    simp only [decodeFrames_eq_frameExtents]
    cases frameExtents input preambleLength count with
    | error e => rfl
    | ok r => rfl

end TreeCluster.Wire
